import SchemaBridge.Proofs.Fluent.Inside
import SchemaBridge.Proofs.Plain.Graphs

/-!
# Fluent schemas as graphs

A fluent node holds its parts, so questions about it are settled, but for the node that a deferred
layer stands for. If what deferred layers stand for is settled too, a fluent schema is the graph of
the nodes below its root.

## Main results

* `Fluent.acyclic_of_loopless` : a fluent schema in which nothing stands below itself is acyclic.
* `Fluent.sameUnfolding_self` : the root of a fluent schema has the same unfolding as itself.
-/

namespace SchemaBridge.Fluent

variable {γ : Type} {scope : Scope γ} {node : Schema γ} {layer : Layer γ}

/-! ### Questions about a node -/

/-- Nothing is inside a fluent node without modifier. -/
theorem inner_of_shape (scope : Scope γ) (seen : node.payload = .fluent layer) {shape : Shape}
    (isShape : layer.kind.predicate = .shape shape) (supply : Nat) :
    (adapter scope).inner node supply = (.ok none, supply) := by
  obtain ⟨id, typeName, payload⟩ := node
  obtain ⟨kind, details⟩ := layer
  dsimp only at seen isShape
  subst seen
  cases kind <;> cases isShape <;> rfl

/-- What is inside a fluent node is known from the start, or a deferred layer stands for it. -/
theorem inner_cases (scope : Scope γ) (seen : node.payload = .fluent layer) :
    (∃ value, ∀ supply, (adapter scope).inner node supply = (.ok value, supply)) ∨
      ∃ target, layer.kind = .deferred target ∧ ∀ supply, (adapter scope).inner node supply =
        ((scope.target target supply).1.map some, (scope.target target supply).2) := by
  cases predicate : layer.kind.predicate with
  | modifier modifier =>
    rcases inner_adapter scope seen predicate with ⟨part, -, always⟩ | deferred
    · exact .inl ⟨some part, always⟩
    · exact .inr deferred
  | shape shape => exact .inl ⟨none, inner_of_shape scope seen predicate⟩

/-- The questions about a fluent node are settled, if it is settled what it stands for. -/
theorem steady_adapter (seen : node.payload = .fluent layer)
    (settled : ∀ target, layer.kind = .deferred target → (scope.target target).Settled) :
    (adapter scope).Steady node := by
  have inner : ((adapter scope).inner node).Settled := by
    rcases inner_cases scope seen with ⟨value, always⟩ | ⟨target, isDeferred, mapped⟩
    · exact ⟨value, fun supply => by rw [always]⟩
    · obtain ⟨inner, always⟩ := settled target isDeferred
      exact ⟨some inner, fun supply => by rw [mapped, always]; rfl⟩
  obtain ⟨id, typeName, payload⟩ := node
  obtain ⟨kind, details⟩ := layer
  dsimp only at seen
  subst seen
  refine ⟨inner, ?_, ?_, ?_, ?_, ?_, ?_, ?_, ?_, ?_, ?_, ?_, ?_⟩
  all_goals cases kind <;> exact ⟨_, fun _ => rfl⟩

/-- Answers about a fluent node use no identities up, but for what it stands for. -/
theorem grows_adapter (seen : node.payload = .fluent layer)
    (grows : ∀ target, layer.kind = .deferred target → (scope.target target).Grows) :
    (adapter scope).Grows node := by
  have inner : ((adapter scope).inner node).Grows := by
    intro supply
    rcases inner_cases scope seen with ⟨value, always⟩ | ⟨target, isDeferred, mapped⟩
    · rw [always]
    · rw [mapped]
      exact grows target isDeferred supply
  obtain ⟨id, typeName, payload⟩ := node
  obtain ⟨kind, details⟩ := layer
  dsimp only at seen
  subst seen
  refine ⟨inner, ?_, ?_, ?_, ?_, ?_, ?_, ?_, ?_, ?_, ?_, ?_, ?_⟩
  all_goals cases kind <;> exact fun _ => Nat.le_refl _

/-- What is inside a fluent node is below it, whatever the node is. -/
theorem below_of_gives (seen : node.payload = .fluent layer) {inner : Schema γ}
    (gives : Answer.Gives ((adapter scope).inner node) (some inner)) : Below scope node inner := by
  cases predicate : layer.kind.predicate with
  | modifier modifier => exact below_of_inner seen predicate gives
  | shape shape =>
    obtain ⟨id, typeName, payload⟩ := node
    obtain ⟨kind, details⟩ := layer
    dsimp only at seen predicate
    subst seen
    cases kind <;> cases predicate <;> obtain ⟨_, ⟨⟩⟩ := gives

/-! ### Schemas -/

section

variable {policy : ClaimPolicy} {root : Schema γ}
  (plain : ∀ node, Reaches scope root node → node.payload.description? = none)
include plain

/-- A fluent schema in which nothing stands below itself is acyclic, if what deferred layers stand
for only uses identities up. -/
theorem acyclic_of_loopless (options : DocumentOptions) (supply : Nat)
    (grows : ∀ target, (scope.target target).Grows)
    (loopless : ∀ a b, Reaches scope root a → Relation.TransGen (Below scope) a b → b.id ≠ a.id) :
    Acyclic ⟨Registry.standard scope policy, options⟩ ⟨supply, root⟩ := by
  refine acyclic_of_walks (fun other leads adapter claims => ?_)
    fun a b leads further => ?_
  · have reaches := reaches_of_leads plain leads
    obtain ⟨rfl, layer, seen⟩ := Registry.exists_layer_of_claimed claims (plain other reaches)
    exact grows_adapter seen fun target _ => grows target
  · have reaches := reaches_of_leads plain leads
    refine loopless a b reaches ?_
    suffices both : Relation.TransGen (Below scope) a b ∧ Reaches scope root b from both.1
    induction further with
    | single leads =>
      have below := below_of_leads (plain a reaches) leads
      exact ⟨.single below, reaches.tail below⟩
    | tail _ leads ih =>
      have below := below_of_leads (plain _ ih.2) leads
      exact ⟨ih.1.tail below, ih.2.tail below⟩

/-- The root of a fluent schema has the same unfolding as itself, if what deferred layers stand for
is settled. -/
theorem sameUnfolding_self (settled : ∀ node, Reaches scope root node → ∀ layer target,
      node.payload = .fluent layer → layer.kind = .deferred target →
        (scope.target target).Settled) :
    SameUnfolding (Registry.standard scope policy) root root := by
  refine @Registry.sameUnfolding_self _ _ (Reaches scope root) _ .refl
    (fun other reaches adapter claims => ?_) fun other adapter reaches claims => ?_
  · obtain ⟨rfl, layer, seen⟩ := Registry.exists_layer_of_claimed claims (plain other reaches)
    exact steady_adapter seen fun target isDeferred =>
      settled other reaches layer target seen isDeferred
  · obtain ⟨rfl, layer, seen⟩ := Registry.exists_layer_of_claimed claims (plain other reaches)
    exact ⟨fun part gives => reaches.tail (below_of_gives seen gives), fun shape part extracts =>
      reaches.tail (.held (fluent?_eq_some_iff.2 seen) (mem_nodes_of_extracts seen extracts))⟩

end

end SchemaBridge.Fluent
