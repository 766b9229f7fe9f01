import SchemaBridge.Describe.Adapter
import SchemaBridge.Fluent.Adapter
import SchemaBridge.Registry

/-!
# The registry of the vendors

Fluent schemas and description documents in one registry. A node belongs to the vendor whose payload
it holds; nodes with any other payload belong to nobody. The predicates of a fluent node single out
the modifier or the shape of its kind.

## Main definitions

* `Registry.standard` : the registry.

## Main results

* `Registry.resolve_standard`, `Registry.claimed_cases` : the adapter of a node.
* `Fluent.modifier?_eq_some_iff`, `Fluent.shape?_eq_some_iff` : what a fluent node is.
-/

namespace SchemaBridge

variable {γ : Type}

/-- The registry of the fluent and of the description vendor. -/
def Registry.standard (scope : Scope γ) (policy : ClaimPolicy) : Registry (Payload γ) :=
  ⟨[Fluent.adapter scope, Describe.adapter], policy⟩

namespace Registry

variable {scope : Scope γ} {policy : ClaimPolicy} {node : Schema γ}

/-- The adapter of a node, by its payload. -/
theorem resolve_standard : ((standard scope policy).resolve node).value =
    match node.payload with
    | .fluent _ => some (Fluent.adapter scope)
    | .description document => if document.isObject then some Describe.adapter else none
    | _ => none := by
  rw [value_resolve]
  obtain ⟨id, typeName, payload⟩ := node
  cases payload with
  | fluent | scripted | foreign => rfl
  | description document => cases document <;> rfl

/-- A node of nobody is no fluent node. -/
theorem fluent?_of_unclaimed (nobody : ((standard scope policy).resolve node).value = none) :
    node.payload.fluent? = none := by
  rw [resolve_standard] at nobody
  cases payload : node.payload with
  | fluent layer =>
    rw [payload] at nobody
    cases nobody
  | description | scripted | foreign => rfl

/-- A node of somebody is a fluent node or a description, with the adapter of its vendor. -/
theorem claimed_cases {adapter : Adapter (Payload γ)}
    (claimed : ((standard scope policy).resolve node).value = some adapter) :
    (adapter = Fluent.adapter scope ∧ ∃ layer, node.payload = .fluent layer) ∨
      adapter = Describe.adapter ∧ ∃ doc, node.payload = .description doc := by
  rw [resolve_standard] at claimed
  cases payload : node.payload with
  | fluent layer =>
    rw [payload] at claimed
    exact .inl ⟨(Option.some.inj claimed).symm, layer, rfl⟩
  | description doc =>
    rw [payload] at claimed
    dsimp only at claimed
    split at claimed
    · exact .inr ⟨(Option.some.inj claimed).symm, doc, rfl⟩
    · cases claimed
  | scripted | foreign =>
    rw [payload] at claimed
    cases claimed

/-- A node of somebody is a fluent node, if it is no description. -/
theorem exists_layer_of_claimed {adapter : Adapter (Payload γ)}
    (claimed : ((standard scope policy).resolve node).value = some adapter)
    (plain : node.payload.description? = none) :
    adapter = Fluent.adapter scope ∧ ∃ layer, node.payload = .fluent layer := by
  rcases claimed_cases claimed with fluent | ⟨-, doc, holds⟩
  · exact fluent
  · rw [holds] at plain
    cases plain

end Registry

namespace Fluent

variable {scope : Scope γ} {node : Schema γ} {layer : Layer γ}

private theorem holds_eq (seen : node.payload = .fluent layer) (predicate : TypePredicate) :
    (adapter scope).holds predicate node = decide (predicate = layer.kind.predicate) := by
  rw [Bool.eq_iff_iff, decide_eq_true_eq]
  exact holds_iff seen predicate

/-- The modifier of a fluent node is that of its kind. -/
theorem modifier?_eq_some_iff (seen : node.payload = .fluent layer) {modifier : Modifier} :
    (adapter scope).modifier? node = some modifier ↔ layer.kind.predicate = .modifier modifier := by
  rw [Adapter.modifier?]
  simp only [holds_eq seen]
  cases layer.kind.predicate with
  | modifier m => cases m <;> simp [Modifier.priority]
  | shape s => simp [Modifier.priority]

theorem modifier?_eq_none_iff (seen : node.payload = .fluent layer) :
    (adapter scope).modifier? node = none ↔ ∃ shape, layer.kind.predicate = .shape shape := by
  rw [Adapter.modifier?_eq_none_iff]
  simp only [holds_eq seen, decide_eq_false_iff_not]
  cases layer.kind.predicate with
  | modifier m => simp
  | shape s => simp

/-- The shape of a fluent node is that of its kind. -/
theorem shape?_eq_some_iff (seen : node.payload = .fluent layer) {shape : Shape} :
    (adapter scope).shape? node = some shape ↔ layer.kind.predicate = .shape shape := by
  rw [Adapter.shape?]
  simp only [holds_eq seen]
  cases layer.kind.predicate with
  | modifier m => simp [Shape.priority]
  | shape s => cases s <;> simp [Shape.priority]

end Fluent

end SchemaBridge
