import Mathlib.Data.List.Chain
import SchemaBridge.Proofs.Compile.Naming
import SchemaBridge.Proofs.Compile.References
import SchemaBridge.Proofs.Plan.Parts

/-!
# Walks through a schema

A schema is a graph: a modifier leads to the node inside it, and a structure leads to its parts. The
nodes in progress at a call are those of a walk from the root to the node of the call, and no node
occurs twice on it. So a node that is met while it is in progress ends a walk on which nothing was
repeated before.

## Main definitions

* `Leads` : a node leads to another one.
* `Reenters` : some walk from a root repeats a node, and no other one before.
* `Call.Follows` : the nodes in progress at a call are those of a walk to its node.

## Main results

* `Call.Within.follows` : every call of a run follows a walk.
* `Call.Enters.reached` : what a call comes to is reached from the root.
* `Call.Meets.reenters` : a node that is met while it is in progress is re-entered.
-/

namespace SchemaBridge

open Chain Ledger Compile Plan

variable {π : Type}

/-- A node leads to another one: to the node inside its modifier, or to a part of its structure. -/
inductive Leads (registry : Registry π) : Node π → Node π → Prop where
  | inside {node inner : Node π} {adapter : Adapter π} {modifier : Modifier}
      (claims : (registry.resolve node).value = some adapter)
      (wrapped : adapter.modifier? node = some modifier)
      (gives : Answer.Gives (adapter.inner node) (some inner)) : Leads registry node inner
  | part {node part : Node π} {adapter : Adapter π} {shape : Shape}
      (claims : (registry.resolve node).value = some adapter)
      (bare : adapter.modifier? node = none ∨ Answer.Gives (adapter.inner node) none)
      (seen : adapter.shape? node = some shape) (extracts : adapter.Extracts node shape part) :
      Leads registry node part

/-- Some walk from a root has a node as its first repeated one. -/
def Reenters (registry : Registry π) (root : Node π) (id : Identity) : Prop :=
  ∃ path again, (path ++ [again]).head? = some root ∧
    List.IsChain (Leads registry) (path ++ [again]) ∧ (path.map (·.id)).Nodup ∧
    again.id ∈ path.map (·.id) ∧ again.id = id

/-- A walk goes on from its first node. -/
theorem exists_leads_of_walk {registry : Registry π} {first again : Node π}
    {rest : List (Node π)}
    (walk : List.IsChain (Leads registry) (first :: (rest ++ [again]))) :
    ∃ next, (rest ++ [again]).head? = some next ∧ Leads registry first next := by
  obtain ⟨next, isNext⟩ : ∃ next, (rest ++ [again]).head? = some next := by
    cases rest <;> exact ⟨_, rfl⟩
  exact ⟨next, isNext, (List.isChain_cons.1 walk).1 next isNext⟩

/-! ### The chain of a node is a walk -/

namespace Chain.Unwraps

variable {registry : Registry π} {node : Node π} {adapter : Adapter π} {isOptional : Bool}
  {layers : List (PeeledLayer π)} {stop : ChainEnd π}

/-- The nodes along a chain are a walk that starts at its node. -/
theorem isWalk (claims : (registry.resolve node).value = some adapter)
    (h : Unwraps registry node adapter layers isOptional (.ok stop)) :
    List.IsChain (Leads registry) (Chain.nodes layers stop) ∧
      (Chain.nodes layers stop).head? = some node := by
  generalize ending : Except.ok stop = last at h
  induction h with
  | base | hollow =>
    obtain rfl := Except.ok.inj ending
    exact ⟨.singleton _, rfl⟩
  | endless | failed => cases ending
  | reentered wrapped gives =>
    obtain rfl := Except.ok.inj ending
    exact ⟨.cons_cons (.inside claims wrapped gives) (.singleton _), rfl⟩
  | unclaimed wrapped gives =>
    obtain rfl := Except.ok.inj ending
    exact ⟨.singleton _, rfl⟩
  | @layer node inner adapter next modifier layers isOptional _ wrapped gives claimed rest ih =>
    obtain ⟨walk, start⟩ := ih claimed ending
    have more : Chain.nodes (⟨node, adapter, modifier⟩ :: layers) stop =
        node :: Chain.nodes layers stop := by cases stop <;> rfl
    rw [more]
    refine ⟨List.isChain_cons.2 ⟨fun next isNext => ?_, walk⟩, rfl⟩
    rw [start] at isNext
    obtain rfl := Option.some.inj isNext
    exact .inside claims wrapped gives

/-- The base of a chain has no modifier, or one that wraps nothing. -/
theorem bare_base {base : Node π} {baseAdapter : Adapter π} {modifier : Option Modifier}
    (claims : (registry.resolve node).value = some adapter)
    (h : Unwraps registry node adapter layers isOptional (.ok (.base base baseAdapter modifier))) :
    (registry.resolve base).value = some baseAdapter ∧
      (baseAdapter.modifier? base = none ∨ Answer.Gives (baseAdapter.inner base) none) := by
  obtain ⟨_, atBase, claimed⟩ := h.atBase claims
  refine ⟨claimed, ?_⟩
  cases atBase with
  | base plain => exact .inl plain
  | hollow _ gives => exact .inr gives

end Chain.Unwraps

namespace Call

variable {context : CompileContext π} {root call inner : Call π} {path : List (Node π)}

/-- The nodes in progress at a call are those of a walk to its node, which repeats none of them. -/
structure Follows (context : CompileContext π) (root : Node π) (call : Call π)
    (path : List (Node π)) : Prop where
  start : (path ++ [call.node]).head? = some root
  walk : List.IsChain (Leads context.registry) (path ++ [call.node])
  active : call.books.active = (path.map (·.id)).reverse
  distinct : (path.map (·.id)).Nodup

section Along

variable {levels : Nat} {node : Node π} {adapter : Adapter π} {s t : Ledger}
  {layers : List (PeeledLayer π)} {isOptional : Bool} {stop : ChainEnd π} {ids : List Identity}

/-- A walk to a node goes on along its chain. -/
theorem Follows.along {root : Node π} (h : Follows context root ⟨levels + 1, node, s⟩ path)
    (claims : (context.registry.resolve node).value = some adapter)
    (unwraps : Unwraps context.registry node adapter layers isOptional (.ok stop)) :
    (path ++ Chain.nodes layers stop).head? = some root ∧
      List.IsChain (Leads context.registry) (path ++ Chain.nodes layers stop) := by
  obtain ⟨walk, start⟩ := unwraps.isWalk claims
  obtain ⟨rest, split⟩ : ∃ rest, Chain.nodes layers stop = node :: rest := by
    cases nodes : Chain.nodes layers stop with
    | nil =>
      rw [nodes] at start
      cases start
    | cons first rest =>
      rw [nodes] at start
      exact ⟨rest, by rw [Option.some.inj start]⟩
  rw [split] at walk ⊢
  refine ⟨?_, List.isChain_split.2 ⟨h.walk, walk⟩⟩
  rw [← h.start]
  cases path <;> rfl

/-- The nodes whose work is started along a chain are new on a walk to its node. -/
theorem Follows.distinct_along {root : Node π}
    (h : Follows context root ⟨levels + 1, node, s⟩ path)
    (peels : Peels context node adapter (resolved context ⟨levels + 1, node, s⟩) layers isOptional
      (.ok stop) ids t) :
    (path.map (·.id) ++ ids).Nodup ∧ t.active = (path.map (·.id) ++ ids).reverse := by
  have active : s.active = (path.map (·.id)).reverse := h.active
  obtain ⟨supply, events, rfl⟩ := peels.books
  refine ⟨List.nodup_append'.2 ⟨h.distinct, peels.nodup, fun id onPath isNew => ?_⟩, ?_⟩
  · refine peels.fresh id isNew ?_
    change id ∈ s.active
    rw [active]
    exact List.mem_reverse.2 onPath
  · change ids.reverse ++ s.active = _
    rw [active, List.reverse_append]

section Parts

variable {base part : Node π} {baseAdapter : Adapter π} {modifier : Option Modifier} {shape : Shape}
  {u : Ledger} (new : node.id ∉ s.active)
  (claims : (context.registry.resolve node).value = some adapter)
  (within : Within context root ⟨levels + 1, node, s⟩) (trusted : Trusted context root s)
  (peels : Peels context node adapter (resolved context ⟨levels + 1, node, s⟩) layers isOptional
    (.ok (.base base baseAdapter modifier)) ids t)
  (seen : baseAdapter.shape? base = some shape)
  (visits : Visits (Compile.node context levels)
    (Structure.ofShape context.options base baseAdapter shape)
    (noted base baseAdapter ids t) part u)
include new claims within trusted peels seen visits

/-- When a part is compiled, the books have developed as they may since the end of the chain. -/
theorem frame_of_visits : Frame (noted base baseAdapter ids t) u := by
  have atStart : Trusted context root (resolved context ⟨levels + 1, node, s⟩) :=
    trusted_resolved trusted
  have opened := (peels.opened atStart.toSound).noted
    (((baseAdapter.shape? base).map Shape.bounds).getD .value)
  obtain ⟨-, before, -⟩ := Structure.later_of_visits Frame.refl (fun _ _ _ _ => Frame.trans)
    (fun s supply h => ⟨h.of_supply_events supply [], Frame.of_supply_events s supply []⟩)
    (fun part v visits h => by
      have kept := Call.keeps (within.tail (.intro new claims peels seen visits)) h
      exact ⟨kept.1, kept.2.1⟩)
    (atStart.opened opened) visits
  exact before

/-- When a part is compiled, the nodes in progress are those at the end of the chain. -/
theorem active_of_visits : u.active = t.active :=
  (frame_of_visits new claims within trusted peels seen visits).active

end Parts

end Along

/-- A call that is made for a part follows the walk of the call that makes it, along the chain to
its base, and on to the part. -/
theorem Spawns.follows (h : Spawns context call inner) (within : Within context root call)
    (trusted : Trusted context root call.books) {start : Node π}
    (follows : Follows context start call path) : ∃ more, Follows context start inner more := by
  obtain ⟨new, claims, peels, seen, visits⟩ := h
  rename_i levels node base part adapter baseAdapter layers isOptional modifier ids shape s t u
  have kept := active_of_visits new claims within trusted peels seen visits
  obtain ⟨starts, walk⟩ := follows.along claims peels.unwraps
  obtain ⟨distinct, active⟩ := follows.distinct_along peels
  obtain ⟨claimed, bare⟩ := peels.unwraps.bare_base claims
  obtain ⟨last, all, rfl⟩ := peels.lastEntered
  have onWalk : (path ++ Chain.nodes layers (.base base baseAdapter modifier)).map (·.id) =
      path.map (·.id) ++ ids := by
    rw [all]
    simp [Chain.nodes]
  have leads : Leads context.registry base part :=
    .part claimed bare seen (Structure.extracts_of_mentions visits.mentions)
  refine ⟨path ++ Chain.nodes layers (.base base baseAdapter modifier), ?_, ?_, ?_, ?_⟩
  · rw [List.head?_append, starts]
    rfl
  · rw [Chain.nodes, ← List.append_assoc] at walk ⊢
    rw [List.append_assoc]
    exact List.isChain_append_cons_cons.2 ⟨walk, leads, .singleton _⟩
  · rw [onWalk, kept]
    exact active
  · rw [onWalk]
    exact distinct

/-- Every call of a run follows a walk from the root. -/
theorem Within.follows (h : Within context root call) (idle : root.books.active = [])
    (trusted : Trusted context root root.books) :
    ∃ path, Follows context root.node call path := by
  induction h with
  | refl => exact ⟨[], rfl, .singleton _, idle, List.nodup_nil⟩
  | tail within last ih =>
    obtain ⟨path, follows⟩ := ih
    exact last.follows within (Within.keeps within trusted).1 follows

/-- Everything on a walk is reached from where the walk starts. -/
theorem reached_of_isChain {α : Type} {related : α → α → Prop} {walk : List α} {start a : α}
    (chain : List.IsChain related walk) (starts : walk.head? = some start) (mem : a ∈ walk) :
    Relation.ReflTransGen related start a := by
  induction chain generalizing start with
  | nil => cases mem
  | singleton first =>
    obtain rfl := Option.some.inj starts
    rw [List.mem_singleton.1 mem]
  | cons_cons leads _ ih =>
    obtain rfl := Option.some.inj starts
    rcases List.mem_cons.1 mem with rfl | mem
    · exact .refl
    · exact .head leads (ih rfl mem)

/-- Every node that a call comes to is led to from the node at which the run starts. -/
theorem Enters.reached {node : Node π} (h : Enters context call node) {start : Node π}
    (follows : Follows context start call path) :
    Relation.ReflTransGen (Leads context.registry) start node := by
  cases h with
  | self =>
    exact reached_of_isChain follows.walk follows.start
      (List.mem_append_right _ (List.mem_singleton_self _))
  | along new claims peels mem =>
    obtain ⟨starts, walk⟩ := follows.along claims peels.unwraps
    exact reached_of_isChain walk starts (List.mem_append_right _ mem)

/-- A node that is met while it is in progress ends a walk that repeats no other node. -/
theorem Meets.reenters {id : Identity} (h : Meets context id call) {start : Node π}
    (follows : Follows context start call path) : Reenters context.registry start id := by
  cases h with
  | here same active =>
    subst same
    rw [follows.active] at active
    exact ⟨path, call.node, follows.start, follows.walk, follows.distinct,
      List.mem_reverse.1 active, rfl⟩
  | @inside levels node again adapter s t layers isOptional ids new claims peels same =>
    subst same
    obtain ⟨starts, walk⟩ := follows.along claims peels.unwraps
    obtain ⟨distinct, active⟩ := follows.distinct_along peels
    obtain ⟨last, all, rfl, met⟩ := peels.lastEntered
    have onWalk : (path ++ layers.map (·.node)).map (·.id) = path.map (·.id) ++ ids := by
      rw [all]
      simp
    rw [Chain.nodes, ← List.append_assoc] at starts walk
    refine ⟨path ++ layers.map (·.node), again, starts, walk, onWalk ▸ distinct, ?_, rfl⟩
    rw [onWalk]
    rw [active] at met
    exact List.mem_reverse.1 met

end Call

end SchemaBridge
