import SchemaBridge.Proofs.Compile.Walks

/-!
# Exactly the re-entered nodes are defined

A run goes along every walk that repeats nothing before its end, if the questions about nodes are
always answered in the same way and no limit is reached: peeling follows the walk along modifiers,
and the structure at the base of a chain compiles the part to which the walk goes on. So the end of
the walk is met while it is in progress. Together with the converse this says which nodes have
definitions, whatever the order in which the run comes to them and however often they are met.

## Main definitions

* `Steady` : the questions about the nodes below a node are settled.
* `ComesBack` : a walk whose end is the first node that it repeats.
* `Chain.GoesAlong` : what peeling does along a walk.
* `Compile.DefinesReentered` : the definitions of a document are those of the re-entered nodes.

## Main results

* `Call.meets_or_spawns` : how far along such a walk one call gets.
* `Call.exists_meets` : a run comes upon the end of every walk that repeats nothing before.
* `Registry.exists_meets_of_reenters` : a run comes upon every re-entered node while it is in
  progress.
* `Registry.compile_definesReentered` : exactly the re-entered nodes are defined, each once.
-/

namespace SchemaBridge

open Chain Ledger Compile Plan

variable {π : Type}

/-- All questions about the nodes below a node are settled. -/
def Steady (registry : Registry π) (node : Node π) : Prop :=
  ∀ adapter, (registry.resolve node).value = some adapter → adapter.Steady node

/-- A walk that repeats nothing before its end, and ends at a node that is in progress or comes
earlier on it. -/
structure ComesBack (registry : Registry π) (active : List Identity) (first : Node π)
    (rest : List (Node π)) (again : Node π) : Prop where
  steady : ∀ other ∈ first :: rest, Steady registry other
  walk : List.IsChain (Leads registry) (first :: (rest ++ [again]))
  distinct : ((first :: rest).map (·.id)).Nodup
  new : ∀ other ∈ first :: rest, other.id ∉ active
  met : again.id ∈ active ∨ again.id ∈ (first :: rest).map (·.id)

section ComesBack

variable {registry : Registry π} {active : List Identity} {first later again : Node π}
  {along beyond : List (Node π)}

/-- The end of the walk is in progress when all nodes before it are. -/
theorem ComesBack.active_end (h : ComesBack registry active first (along ++ []) again) :
    again.id ∈ ((first :: along).map (·.id)).reverse ++ active := by
  have met := h.met
  rw [List.append_nil] at met
  rw [List.mem_append, List.mem_reverse]
  exact met.symm

/-- The rest of the walk comes back when the nodes before it are in progress. -/
theorem ComesBack.onward
    (h : ComesBack registry active first (along ++ later :: beyond) again) :
    ComesBack registry (((first :: along).map (·.id)).reverse ++ active) later beyond again := by
  have distinct := h.distinct
  have met := h.met
  have walk := h.walk
  rw [← List.cons_append, List.map_append] at distinct met
  rw [List.append_assoc, ← List.cons_append] at walk
  obtain ⟨-, distinctBeyond, apart⟩ := List.nodup_append'.1 distinct
  have inRest {other : Node π} (mem : other ∈ later :: beyond) :
      other ∈ first :: (along ++ later :: beyond) :=
    List.mem_cons_of_mem _ (List.mem_append_right _ mem)
  refine ⟨fun other mem => h.steady other (inRest mem), walk.right_of_append,
    distinctBeyond, ?_, ?_⟩
  · intro other mem isActive
    rw [List.mem_append, List.mem_reverse] at isActive
    rcases isActive with onWay | old
    · exact apart onWay (List.mem_map_of_mem mem)
    · exact h.new other (inRest mem) old
  · rw [List.mem_append, List.mem_reverse]
    rcases met with old | isEarlier
    · exact .inl (.inr old)
    · exact (List.mem_append.1 isEarlier).imp_left .inl

end ComesBack

section Leads

variable {registry : Registry π} {node next : Node π} {adapter : Adapter π}

/-- A node without anything inside leads to its parts. -/
theorem Leads.extracts (h : Leads registry node next) (steady : adapter.Steady node)
    (claims : (registry.resolve node).value = some adapter)
    (bare : adapter.modifier? node = none ∨ Answer.Gives (adapter.inner node) none) :
    ∃ shape, adapter.shape? node = some shape ∧ adapter.Extracts node shape next := by
  cases h with
  | inside claims' wrapped gives =>
    obtain rfl := Option.some.inj (claims.symm.trans claims')
    rcases bare with plain | hollow
    · cases plain.symm.trans wrapped
    · cases steady.inner.gives_unique hollow gives
  | part claims' _ seen extracts =>
    obtain rfl := Option.some.inj (claims.symm.trans claims')
    exact ⟨_, seen, extracts⟩

/-- A node with another one inside leads to that one only. -/
theorem Leads.eq_inner (h : Leads registry node next) (steady : adapter.Steady node)
    (claims : (registry.resolve node).value = some adapter) {modifier : Modifier}
    (wrapped : adapter.modifier? node = some modifier) {inner : Node π}
    (gives : Answer.Gives (adapter.inner node) (some inner)) : next = inner := by
  cases h with
  | inside claims' _ gives' =>
    obtain rfl := Option.some.inj (claims.symm.trans claims')
    exact Option.some.inj (steady.inner.gives_unique gives' gives)
  | part claims' bare =>
    obtain rfl := Option.some.inj (claims.symm.trans claims')
    rcases bare with plain | hollow
    · cases plain.symm.trans wrapped
    · cases steady.inner.gives_unique hollow gives

/-- A node that leads to another one is claimed. -/
theorem Leads.claimed (h : Leads registry node next) :
    ∃ adapter, (registry.resolve node).value = some adapter := by
  cases h with
  | inside claims => exact ⟨_, claims⟩
  | part claims => exact ⟨_, claims⟩

/-- The first node of a walk is claimed. -/
theorem claimed_of_walk {first again : Node π} {rest : List (Node π)}
    (walk : List.IsChain (Leads registry) (first :: (rest ++ [again]))) :
    ∃ adapter, (registry.resolve first).value = some adapter := by
  obtain ⟨next, -, leads⟩ := exists_leads_of_walk walk
  exact leads.claimed

end Leads

namespace Chain

/-- Peeling goes along a walk which ends at a node that is met again: it is given up for want of
room, it meets that node, or it comes to a base from which the walk goes on to a part. -/
inductive GoesAlong (registry : Registry π) (active : List Identity) (again : Node π)
    (rest : List (Node π)) : Except CompileFailure (ChainEnd π) → Ledger → Prop where
  | endless {vendor : String} {t : Ledger} :
      GoesAlong registry active again rest (.error (.endless vendor)) t
  | met {same : Node π} {t : Ledger} (eq : same.id = again.id) :
      GoesAlong registry active again rest (.ok (.reentered same)) t
  | base {node part : Node π} {adapter : Adapter π} {modifier : Option Modifier} {shape : Shape}
      {along beyond : List (Node π)} {t : Ledger} (split : along ++ beyond = rest)
      (opened : t.active = (along.map (·.id)).reverse ++ active) (steady : adapter.Steady node)
      (first : (beyond ++ [again]).head? = some part) (seen : adapter.shape? node = some shape)
      (extracts : adapter.Extracts node shape part) :
      GoesAlong registry active again rest (.ok (.base node adapter modifier)) t

theorem GoesAlong.cons {registry : Registry π} {active : List Identity} {again first : Node π}
    {rest : List (Node π)} {stop : Except CompileFailure (ChainEnd π)} {t : Ledger}
    (h : GoesAlong registry (first.id :: active) again rest stop t) :
    GoesAlong registry active again (first :: rest) stop t := by
  cases h with
  | endless => exact .endless
  | met eq => exact .met eq
  | @base _ _ _ _ _ along _ _ split opened steady isNext seen extracts =>
    have split' : (first :: along) ++ _ = first :: rest := congrArg (first :: ·) split
    exact .base split' (by simpa using opened) steady isNext seen extracts

section Peel

variable {context : CompileContext π} {node again : Node π} {adapter : Adapter π}
  {rest : List (Node π)}

/-- A node without anything inside is the base. -/
theorem goesAlong_of_bare (walk : List.IsChain (Leads context.registry) (node :: (rest ++ [again])))
    (steady : adapter.Steady node) (claims : (context.registry.resolve node).value = some adapter)
    (bare : adapter.modifier? node = none ∨ Answer.Gives (adapter.inner node) none)
    (modifier : Option Modifier) {active : List Identity} {t : Ledger} (same : t.active = active) :
    GoesAlong context.registry active again rest (.ok (.base node adapter modifier)) t := by
  obtain ⟨next, isNext, leads⟩ := exists_leads_of_walk walk
  obtain ⟨shape, seen, extracts⟩ := leads.extracts steady claims bare
  have split : [] ++ rest = rest := rfl
  exact .base split same steady isNext seen extracts

/-- A walk goes from a node with another one inside to that one, which is its end or comes
before. -/
theorem inside_of_walk (walk : List.IsChain (Leads context.registry) (node :: (rest ++ [again])))
    (steady : adapter.Steady node) (claims : (context.registry.resolve node).value = some adapter)
    {modifier : Modifier} (wrapped : adapter.modifier? node = some modifier) {inner : Node π}
    {s : Ledger} {supply : Nat}
    (answer : adapter.inner node s.supply = (.ok (some inner), supply)) :
    (rest = [] ∧ again = inner) ∨ ∃ beyond, rest = inner :: beyond ∧
      List.IsChain (Leads context.registry) (inner :: (beyond ++ [again])) := by
  have gives : Answer.Gives (adapter.inner node) (some inner) := ⟨_, congrArg Prod.fst answer⟩
  obtain ⟨leads, onward⟩ := List.isChain_cons.1 walk
  cases rest with
  | nil => exact .inl ⟨rfl, (leads again rfl).eq_inner steady claims wrapped gives⟩
  | cons first beyond =>
    obtain rfl := (leads first rfl).eq_inner steady claims wrapped gives
    exact .inr ⟨beyond, rfl, onward⟩

/-- Peeling goes along a walk from its node that repeats nothing before its end. -/
theorem peel_goesAlong (room : Nat) (peeled : Peeled π) {s : Ledger}
    (claims : (context.registry.resolve node).value = some adapter)
    (steady : ∀ other ∈ node :: rest, Steady context.registry other)
    (walk : List.IsChain (Leads context.registry) (node :: (rest ++ [again])))
    (distinct : (rest.map (·.id)).Nodup) (new : ∀ other ∈ rest, other.id ∉ s.active)
    (met : again.id ∈ s.active ∨ again.id ∈ rest.map (·.id)) :
    GoesAlong context.registry s.active again rest (peel context room peeled node adapter s).1.2
      (peel context room peeled node adapter s).2 := by
  have here := steady node List.mem_cons_self adapter claims
  induction room, peeled, node, adapter, s using peel_induct context generalizing rest with
  | base plain runs =>
    rw [runs]
    exact goesAlong_of_bare walk here claims (.inl plain) none rfl
  | endless wrapped runs =>
    rw [runs]
    exact .endless
  | @failed _ _ node adapter s _ supply error wrapped answer runs =>
    obtain ⟨inner, always⟩ := here.inner
    cases (always s.supply).symm.trans (congrArg Prod.fst answer)
  | hollow wrapped answer runs =>
    rw [runs]
    exact goesAlong_of_bare walk here claims (.inr ⟨_, congrArg Prod.fst answer⟩) _ rfl
  | reentered wrapped answer again runs =>
    rw [runs]
    rcases inside_of_walk walk here claims wrapped answer with ⟨-, rfl⟩ | ⟨beyond, rfl, -⟩
    · exact .met rfl
    · exact absurd again (new _ List.mem_cons_self)
  | unclaimed wrapped answer isNew nobody runs =>
    rcases inside_of_walk walk here claims wrapped answer with ⟨rfl, rfl⟩ | ⟨beyond, rfl, onward⟩
    · exact absurd (met.resolve_right List.not_mem_nil) isNew
    · obtain ⟨adapter', claims'⟩ := claimed_of_walk onward
      cases nobody.symm.trans claims'
  | @layer _ _ _ inner _ _ _ _ _ wrapped answer isNew claims' runs ih =>
    rw [runs]
    rcases inside_of_walk walk here claims wrapped answer with ⟨rfl, rfl⟩ | ⟨beyond, rfl, onward⟩
    · exact absurd (met.resolve_right List.not_mem_nil) isNew
    · obtain ⟨notLater, distinct⟩ := List.nodup_cons.1 distinct
      refine (ih claims' (fun other mem => steady other (List.mem_cons_of_mem _ mem)) onward
        distinct ?_ ?_ (steady inner (by simp) _ claims')).cons
      · intro other mem active
        rcases List.mem_cons.1 active with same | active
        · exact notLater (List.mem_map.2 ⟨other, mem, same⟩)
        · exact new other (List.mem_cons_of_mem _ mem) active
      · rcases met with active | isFirst
        · exact .inl (List.mem_cons_of_mem _ active)
        · exact (List.mem_cons.1 isFirst).imp_left fun same => List.mem_cons.2 (.inl same)

end Peel

end Chain

namespace Call

variable {context : CompileContext π} {root call : Call π}

/-- A run that reaches no limit compiles no node beyond one. -/
theorem Within.unlimited (within : Within context root call)
    (trusted : Trusted context root root.books) (unlimited : ¬ (root.after context).Limited) :
    ¬ (call.after context).Limited :=
  fun cut => unlimited ((within.keeps trusted).2.2.limited cut)

variable {again : Node π} {rest : List (Node π)}

/-- In a run that reaches no limit, a call on the first node of a walk that comes back meets the end
of the walk along the chain of that node, or it makes a call for a later node of the walk, when work
is going on on all nodes before it. -/
theorem meets_or_spawns (within : Within context root call)
    (trusted : Trusted context root root.books) (unlimited : ¬ (root.after context).Limited)
    (back : ComesBack context.registry call.books.active call.node rest again) :
    Meets context again.id call ∨ ∃ along beyond inner, along ++ beyond = rest ∧
      (beyond ++ [again]).head? = some inner.node ∧ Spawns context call inner ∧
      inner.books.active = ((call.node :: along).map (·.id)).reverse ++ call.books.active := by
  obtain ⟨adapter, claims⟩ := claimed_of_walk back.walk
  have isNew : call.node.id ∉ call.books.active := back.new call.node List.mem_cons_self
  obtain ⟨levels, node, s, rfl, layers, isOptional, stop, ids, t, peels, ends⟩ :=
    exists_peels isNew claims (within.unlimited trusted unlimited)
  obtain ⟨notAgain, distinct⟩ := List.nodup_cons.1 back.distinct
  have goes := peel_goesAlong context.options.maxDepth ⟨[], [node.id], false⟩
    (s := (beginWork node (resolved context ⟨levels + 1, node, s⟩)).2) claims back.steady back.walk
    distinct
    (fun other mem active => (List.mem_cons.1 active).elim
      (fun same => notAgain (List.mem_map.2 ⟨other, mem, same⟩))
      (back.new other (List.mem_cons_of_mem _ mem)))
    (back.met.elim (fun active => .inl (List.mem_cons_of_mem _ active)) fun isEarlier =>
      (List.mem_cons.1 isEarlier).imp_left fun same => List.mem_cons.2 (.inl same))
  rw [peels.runs] at goes
  cases goes with
  | endless => exact absurd rfl (ends _)
  | met eq => exact .inl (.inside isNew claims peels eq)
  | @base base part baseAdapter modifier shape along beyond _ split opened steady isPart seen
      extracts =>
    obtain ⟨u, visits⟩ := @Structure.reaches_ofShape π context.options baseAdapter base part shape
      (Compile.node context levels) steady extracts (noted base baseAdapter ids t)
    refine .inr ⟨along, beyond, _, split, isPart, .intro isNew claims peels seen visits, ?_⟩
    rw [active_of_visits isNew claims within (within.keeps trusted).1 peels seen visits, opened]
    simp [beginWork_apply, resolved, resolve_apply]

/-- In a run that reaches no limit, a call on the first node of a walk that comes back comes upon
the end of the walk while it is in progress. -/
theorem exists_meets (within : Within context root call)
    (trusted : Trusted context root root.books) (unlimited : ¬ (root.after context).Limited)
    (back : ComesBack context.registry call.books.active call.node rest again) :
    ∃ inner, Within context call inner ∧ Meets context again.id inner := by
  generalize size : rest.length = n
  -- The induction is on what is left of the walk: a call that is made for a later node is nearer to
  -- the end, and the walk from there comes back as well.
  induction n using Nat.strongRecOn generalizing call rest with
  | ind n ih =>
    rcases meets_or_spawns within trusted unlimited back with
      meets | ⟨along, beyond, inner, rfl, isPart, spawns, active⟩
    · exact ⟨call, .refl, meets⟩
    · cases beyond with
      | nil =>
        obtain rfl := Option.some.inj isPart
        refine ⟨inner, .single spawns, .here rfl ?_⟩
        rw [active]
        exact back.active_end
      | cons first beyond =>
        obtain rfl := Option.some.inj isPart
        have fewer : beyond.length < n := by
          rw [← size, List.length_append, List.length_cons]
          omega
        obtain ⟨met, below, meets⟩ := ih beyond.length fewer (within.tail spawns)
          (active ▸ back.onward) rfl
        exact ⟨met, .head spawns below, meets⟩

end Call

namespace Compile

open Draft07

/-- The definitions of a document are those of the re-entered nodes, one for each. -/
structure DefinesReentered (registry : Registry π) (root : Node π) (names : Table Identity String)
    (document : Json) : Prop where
  /-- A node has a definition if some walk has it as its first repeated node, and only then. -/
  defined : ∀ id, (∃ name, Table.get? names id = some name ∧
    Table.has (definitions document) name = true) ↔ Reenters registry root id
  /-- No name is defined twice. -/
  distinct : (Table.keys (definitions document)).Nodup
  /-- Every definition is that of exactly one node. -/
  owner : ∀ name, Table.has (definitions document) name = true →
    ∃! id, Table.get? names id = some name

end Compile

namespace Registry

/-- A node that is re-entered below the root is met while it is in progress, if all questions about
the nodes that the root leads to are settled and no limit is reached. -/
theorem exists_meets_of_reenters (registry : Registry π) (options : DocumentOptions)
    (node : Node π) (supply : Nat)
    (steady : ∀ other, Relation.ReflTransGen (Leads registry) node other → Steady registry other)
    (whole : ¬ (registry.books options node supply).Limited) {id : Identity}
    (reenters : Reenters registry node id) :
    ∃ inner, Call.Within ⟨registry, options⟩ (rootCall options node supply) inner ∧
      Call.Meets ⟨registry, options⟩ id inner := by
  obtain ⟨path, again, starts, walk, distinct, repeated, rfl⟩ := reenters
  cases path with
  | nil => cases repeated
  | cons first rest =>
    obtain rfl : first = node := Option.some.inj starts
    have reached : ∀ other ∈ first :: rest, Steady registry other := by
      intro other mem
      refine steady other (walk.induction (Relation.ReflTransGen (Leads registry) first) _
        (fun _ _ step reached => reached.tail step) (fun _ => .refl) other ?_)
      exact List.mem_append_left _ mem
    have back : ComesBack registry [] first rest again :=
      ⟨reached, walk, distinct, fun _ _ => List.not_mem_nil, .inr repeated⟩
    exact @Call.exists_meets π _ _ (rootCall options first supply) _ _ .refl
      (trusted_start _ _ supply) whole back

/-- Exactly the re-entered nodes are defined, each once, if all questions about the nodes that the
root leads to are settled and no limit is reached. -/
theorem compile_definesReentered (registry : Registry π) (options : DocumentOptions)
    (node : Node π) (supply : Nat)
    (steady : ∀ other, Relation.ReflTransGen (Leads registry) node other → Steady registry other)
    (unlimited : ∀ event ∈ (registry.compile options node supply).1.events,
      event.reachesLimit = false) :
    DefinesReentered registry node (registry.books options node supply).names
      (registry.compile options node supply).1.value := by
  have start : Trusted ⟨registry, options⟩ (rootCall options node supply)
      (rootCall options node supply).books := trusted_start _ _ supply
  have books := registry.trusted_books options node supply
  have whole := registry.not_limited options node supply unlimited
  refine ⟨fun id => ⟨?_, fun reenters => ?_⟩, ?_, fun name defined => ?_⟩
  · rintro ⟨name, named, -⟩
    have accounts := @Call.accounts π _ _ (rootCall options node supply) .refl start
    rcases accounts id name named with old | ⟨inner, within, meets⟩
    · cases old
    · obtain ⟨path, follows⟩ := within.follows rfl start
      exact meets.reenters follows
  · obtain ⟨inner, within, meets⟩ :=
      registry.exists_meets_of_reenters options node supply steady whole reenters
    obtain ⟨name, named⟩ := Call.named_of_meets meets (within.keeps start).1
    have atEnd := (within.keeps start).2.2.names _ _ named
    refine ⟨name, atEnd, ?_⟩
    rw [registry.definitions_compile]
    exact registry.defined_of_named options node supply atEnd
  · rw [registry.definitions_compile]
    exact books.distinct
  · rw [registry.definitions_compile] at defined
    obtain ⟨id, named⟩ := (books.used name).1 (books.defined name defined)
    exact ⟨id, named, fun other named' => books.injective _ _ name named' named⟩

/-- A list of itself leads to itself, so it is defined. -/
theorem selfList_definesReentered :
    DefinesReentered selfList ⟨⟨0⟩, "list", ()⟩ (selfList.books {} ⟨⟨0⟩, "list", ()⟩ 1).names
        (selfList.compile {} ⟨⟨0⟩, "list", ()⟩ 1).1.value ∧
      Reenters selfList ⟨⟨0⟩, "list", ()⟩ ⟨0⟩ := by
  have steady (node : Node Unit) : Steady selfList node := by
    intro adapter claims
    obtain rfl := Option.some.inj claims
    exact ⟨⟨_, fun _ => rfl⟩, ⟨_, fun _ => rfl⟩, ⟨_, fun _ => rfl⟩, ⟨_, fun _ => rfl⟩,
      ⟨_, fun _ => rfl⟩, ⟨_, fun _ => rfl⟩, ⟨_, fun _ => rfl⟩, ⟨_, fun _ => rfl⟩, ⟨_, fun _ => rfl⟩,
      ⟨_, fun _ => rfl⟩, ⟨_, fun _ => rfl⟩, ⟨_, fun _ => rfl⟩, ⟨_, fun _ => rfl⟩⟩
  have leads : Leads selfList ⟨⟨0⟩, "list", ()⟩ ⟨⟨0⟩, "list", ()⟩ :=
    .part rfl (.inl rfl) rfl (.element ⟨0, rfl⟩)
  refine ⟨compile_definesReentered selfList {} ⟨⟨0⟩, "list", ()⟩ 1 (fun other _ => steady other) ?_,
    [⟨⟨0⟩, "list", ()⟩], ⟨⟨0⟩, "list", ()⟩, rfl, .cons_cons leads (.singleton _),
    List.nodup_singleton _, List.mem_singleton_self _, rfl⟩
  have events : (selfList.compile {} ⟨⟨0⟩, "list", ()⟩ 1).1.events = [.referred "List"] := rfl
  rw [events]
  intro event mem
  rw [List.mem_singleton.1 mem]
  rfl

end Registry

end SchemaBridge
