import SchemaBridge.Proofs.Plain.Acyclic

/-!
# Schemas that are built anew

An adapter may build a new node for every answer, although its vendor knows no such nodes: no node
is then come to twice, and the nodes below a node have been built after it. Such schemas are
acyclic.

## Main definitions

* `BuiltBetween` : a node of some kind was built between two moments.
* `Answer.Anew`, `Adapter.Anew` : all nodes of an answer are new.

## Main results

* `acyclic_of_anew` : a schema whose answers are new is acyclic.
-/

namespace SchemaBridge

variable {π α β : Type} {kind : Node π → Prop}

/-- A node of some kind was built between two moments. -/
structure BuiltBetween (kind : Node π → Prop) (before now : Nat) (node : Node π) : Prop where
  ofKind : kind node
  lower : before ≤ node.id.index
  upper : node.id.index < now

theorem BuiltBetween.later {before now later : Nat} {node : Node π}
    (h : BuiltBetween kind before now node) (le : now ≤ later) :
    BuiltBetween kind before later node :=
  ⟨h.ofKind, h.lower, Nat.lt_of_lt_of_le h.upper le⟩

theorem BuiltBetween.earlier {start before now : Nat} {node : Node π}
    (h : BuiltBetween kind before now node) (le : start ≤ before) :
    BuiltBetween kind start now node :=
  ⟨h.ofKind, Nat.le_trans le h.lower, h.upper⟩

/-- An answer only uses identities up, and the nodes that it gives are new ones of some kind. -/
def Answer.Anew (kind : Node π → Prop) (nodes : β → List (Node π)) (answer : Answer β) : Prop :=
  answer.Grows ∧ ∀ supply given later, answer supply = (.ok given, later) →
    ∀ node ∈ nodes given, BuiltBetween kind supply later node

/-- All answers about the nodes below a node give new ones of some kind. -/
structure Adapter.Anew (kind : Node π → Prop) (adapter : Adapter π) (node : Node π) : Prop where
  inner : (adapter.inner node).Anew kind Option.toList
  entries : (adapter.entries node).Anew kind (List.map Prod.snd)
  element : (adapter.element node).Anew kind Option.toList
  options : (adapter.options node).Anew kind id
  positions : (adapter.positions node).Anew kind id
  rest : (adapter.rest node).Anew kind Option.toList
  recordKey : (adapter.recordKey node).Anew kind Option.toList
  recordValue : (adapter.recordValue node).Anew kind Option.toList
  mapKey : (adapter.mapKey node).Anew kind Option.toList
  mapValue : (adapter.mapValue node).Anew kind Option.toList
  member : (adapter.member node).Anew kind Option.toList
  parts : (adapter.parts node).Anew kind id
  awaited : (adapter.awaited node).Anew kind Option.toList

/-- Answers that give new nodes only use identities up. -/
theorem Adapter.Anew.grows {adapter : Adapter π} {node : Node π} (h : adapter.Anew kind node) :
    adapter.Grows node where
  inner := h.inner.1
  entries := h.entries.1
  element := h.element.1
  options := h.options.1
  positions := h.positions.1
  rest := h.rest.1
  recordKey := h.recordKey.1
  recordValue := h.recordValue.1
  mapKey := h.mapKey.1
  mapValue := h.mapValue.1
  member := h.member.1
  parts := h.parts.1
  awaited := h.awaited.1

namespace Plan

theorem andThen_assoc {γ : Type} (plan : Plan π α) (next : α → Plan π β) (after : β → Plan π γ) :
    (plan.andThen next).andThen after = plan.andThen fun a => (next a).andThen after := by
  induction plan with
  | done a => rfl
  | ask answer rest ih => exact congrArg (ask answer) (funext ih)
  | compile part rest ih => exact congrArg (compile part) (funext ih)

/-- A plan that is carried out from some moment on only compiles parts that were built after the
start. -/
def OnlyNew (kind : Node π → Prop) (start before : Nat) (plan : Plan π α) : Prop :=
  ∀ now part, Offers before plan now part → BuiltBetween kind start now part

variable {start before : Nat}

theorem onlyNew_pure (a : α) : OnlyNew kind start before (pure a : Plan π α) := nofun

theorem onlyNew_question {nodes : β → List (Node π)} {answer : Answer β} {after : β → Plan π α}
    (le : start ≤ before) (anew : answer.Anew kind nodes)
    (rest : ∀ given now, before ≤ now → (∀ node ∈ nodes given, BuiltBetween kind start now node) →
      OnlyNew kind start now (after given)) :
    OnlyNew kind start before (question answer >>= after) := by
  intro now part offers
  change Offers before (.ask answer after) now part at offers
  cases offers with
  | @ask _ _ asked answered _ _ _ given _ asks gives offers =>
    have grows : asked ≤ answered := anew.1.le gives
    refine rest given answered (Nat.le_trans asks grows) (fun node mem => ?_) now part offers
    exact (anew.2 asked given answered gives node mem).earlier (Nat.le_trans le asks)

theorem onlyNew_part {node : Node π} {after : NodeSchema → Plan π α}
    (new : BuiltBetween kind start before node)
    (rest : ∀ c now, before ≤ now → OnlyNew kind start now (after c)) :
    OnlyNew kind start before (part node >>= after) := by
  intro now part offers
  change Offers before (.compile node after) now part at offers
  cases offers with
  | here le => exact new.later le
  | later le offers => exact rest _ _ le _ _ offers

theorem onlyNew_part? {node? : Option (Node π)} {after : Option NodeSchema → Plan π α}
    (new : ∀ node ∈ node?.toList, BuiltBetween kind start before node)
    (rest : ∀ c now, before ≤ now → OnlyNew kind start now (after c)) :
    OnlyNew kind start before (part? node? >>= after) := by
  cases node? with
  | none => exact rest none before (Nat.le_refl _)
  | some node =>
    exact onlyNew_part (new node List.mem_cons_self) fun c now le => rest (some c) now le

theorem onlyNew_parts {nodes : List (Node π)} {after : List NodeSchema → Plan π α}
    (new : ∀ node ∈ nodes, BuiltBetween kind start before node)
    (rest : ∀ cs now, before ≤ now → OnlyNew kind start now (after cs)) :
    OnlyNew kind start before (parts nodes >>= after) := by
  induction nodes generalizing before after with
  | nil => exact rest [] before (Nat.le_refl _)
  | cons node nodes ih =>
    refine onlyNew_part (new node List.mem_cons_self) fun c now le => ?_
    change OnlyNew kind start now (((parts nodes).andThen fun cs => .done (c :: cs)).andThen after)
    rw [andThen_assoc]
    exact ih (fun other mem => (new other (List.mem_cons_of_mem _ mem)).later le)
      fun cs now' le' => rest (c :: cs) now' (Nat.le_trans le le')

theorem onlyNew_entries {entries : List (String × Node π)}
    {after : List (String × NodeSchema) → Plan π α}
    (new : ∀ node ∈ entries.map Prod.snd, BuiltBetween kind start before node)
    (rest : ∀ cs now, before ≤ now → OnlyNew kind start now (after cs)) :
    OnlyNew kind start before (Plan.entries entries >>= after) := by
  induction entries generalizing before after with
  | nil => exact rest [] before (Nat.le_refl _)
  | cons entry entries ih =>
    refine onlyNew_part (new entry.2 List.mem_cons_self) fun c now le => ?_
    change OnlyNew kind start now
      (((Plan.entries entries).andThen fun cs => .done ((entry.1, c) :: cs)).andThen after)
    rw [andThen_assoc]
    exact ih (fun other mem => (new other (List.mem_cons_of_mem _ mem)).later le)
      fun cs now' le' => rest ((entry.1, c) :: cs) now' (Nat.le_trans le le')

end Plan

namespace Structure

open Plan

variable {options : DocumentOptions} {adapter : Adapter π} {node : Node π}

/-- A key and a value are asked for one after the other, and then compiled. -/
private theorem onlyNew_pair {start : Nat} {key value : Answer (Option (Node π))}
    {after : Option NodeSchema → Option NodeSchema → Assembly}
    (anewKey : key.Anew kind Option.toList) (anewValue : value.Anew kind Option.toList) :
    OnlyNew kind start start (question key >>= fun key => question value >>= fun value =>
      part? key >>= fun key => part? value >>= fun value => pure (after key value)) :=
  onlyNew_question (Nat.le_refl _) anewKey fun _ _ le newKey =>
    onlyNew_question le anewValue fun _ _ le' newValue =>
      onlyNew_part? (fun other mem => (newKey other mem).later le') fun _ _ le'' =>
        onlyNew_part? (fun other mem => (newValue other mem).later le'') fun _ _ _ => onlyNew_pure _

theorem onlyNew_ofShape (anew : adapter.Anew kind node) (start : Nat) (shape : Shape) :
    OnlyNew kind start start (ofShape options node adapter shape) := by
  have le := Nat.le_refl start
  cases shape with
  | promise =>
    refine onlyNew_question le anew.awaited fun given _ _ new => ?_
    cases given with
    | none => exact onlyNew_pure _
    | some inner => exact onlyNew_part (new inner List.mem_cons_self) fun _ _ _ => onlyNew_pure _
  | union =>
    refine onlyNew_question le anew.options fun _ _ _ new => onlyNew_parts new fun cs _ _ => ?_
    split <;> exact onlyNew_pure _
  | intersection =>
    exact onlyNew_question le anew.parts fun _ _ _ new =>
      onlyNew_parts new fun _ _ _ => onlyNew_pure _
  | tuple =>
    exact onlyNew_question le anew.positions fun _ _ le' new => onlyNew_parts new fun _ _ le'' =>
      onlyNew_question (Nat.le_trans le' le'') anew.rest fun _ _ _ new =>
        onlyNew_part? new fun _ _ _ => onlyNew_pure _
  | object =>
    exact onlyNew_question le anew.entries fun _ _ _ new =>
      onlyNew_entries new fun _ _ _ => onlyNew_pure _
  | array =>
    exact onlyNew_question le anew.element fun _ _ _ new =>
      onlyNew_part? new fun _ _ _ => onlyNew_pure _
  | record => exact onlyNew_pair anew.recordKey anew.recordValue
  | map => exact onlyNew_pair anew.mapKey anew.mapValue
  | set =>
    exact onlyNew_question le anew.member fun _ _ _ new =>
      onlyNew_part? new fun _ _ _ => onlyNew_pure _
  | _ => exact onlyNew_pure _

end Structure

open Arrival

section

variable {context : CompileContext π} {root : Arrival π}
  (anew : ∀ node, kind node → ∀ adapter, (context.registry.resolve node).value = some adapter →
    adapter.Anew kind node)
include anew

/-- What stands directly below a node was built after the moment at which the node was come to. -/
theorem Arrival.Below.builtBetween {a b : Arrival π} (isKind : kind a.node)
    (below : Below context a b) : BuiltBetween kind a.supply b.supply b.node := by
  cases below with
  | inside claims _ le gives =>
    exact ((anew _ isKind _ claims).inner.2 _ _ _ gives _ List.mem_cons_self).earlier le
  | part claims _ _ offers =>
    exact Structure.onlyNew_ofShape (anew _ isKind _ claims) _ _ _ _ offers

variable (ofKind : kind root.node)
include ofKind

/-- What stands below a root, at any depth, was built after the moment at which the root was come
to. -/
theorem Arrival.Reaches.builtBetween {a : Arrival π} (reaches : Reaches context root a) :
    a = root ∨ BuiltBetween kind root.supply a.supply a.node := by
  induction reaches with
  | refl => exact .inl rfl
  | tail _ below ih =>
    right
    rcases ih with rfl | new
    · exact below.builtBetween anew ofKind
    · exact (below.builtBetween anew new.ofKind).earlier
        (Nat.le_trans new.lower (Nat.le_of_lt new.upper))

/-- A schema whose answers give new nodes is acyclic: a node that stands below another was built
after it. -/
theorem acyclic_of_anew (built : root.node.id.index < root.supply) : Acyclic context root := by
  have reached (a : Arrival π) (reaches : Reaches context root a) :
      kind a.node ∧ a.node.id.index < a.supply := by
    rcases reaches.builtBetween anew ofKind with rfl | new
    · exact ⟨ofKind, built⟩
    · exact ⟨new.ofKind, new.upper⟩
  refine ⟨fun a reaches adapter claims => ?_, fun a b reaches further => ?_⟩
  · have := anew _ (reached a reaches).1 adapter claims
    exact ⟨this.inner.1, fun shape _ => Structure.grows_ofShape this.grows _ shape⟩
  · obtain ⟨isKind, upper⟩ := reached a reaches
    have rises : a.node.id.index < b.node.id.index := by
      induction further with
      | single below => exact Nat.lt_of_lt_of_le upper (below.builtBetween anew isKind).lower
      | @tail b c above below ih =>
        obtain ⟨isKind, upper⟩ := reached b (reaches.trans above.to_reflTransGen)
        exact Nat.lt_trans ih (Nat.lt_of_lt_of_le upper (below.builtBetween anew isKind).lower)
    exact fun same => Nat.lt_irrefl _ (same ▸ rises)

end

end SchemaBridge
