import SchemaBridge.Proofs.Describe.Answers
import SchemaBridge.Proofs.Fluent.Unfolding
import SchemaBridge.Proofs.Mirror.Built

/-!
# Fluent graphs that have been built

A fluent node holds others, which were built before it, and a slot or a getter stands for a node. If
the nodes that slots were defined as have been built when a run starts, and getters build the nodes
that they hand out, then the run only ever comes to nodes that have been built by then.

## Main definitions

* `Fluent.Holds` : a node is held by the layer of another one.
* `Schema.BuiltBy` : a node and all nodes that it holds, at any depth, have been built.
* `Scope.Built` : what slots and getters stand for has been built.

## Main results

* `Scope.Built.mirrors` : the vendors at hand only hand out nodes that have been built.
-/

namespace SchemaBridge

variable {γ : Type}

/-- A node is held by the layer of another one. -/
def Fluent.Holds (node inner : Schema γ) : Prop :=
  ∃ layer, node.payload.fluent? = some layer ∧ inner ∈ layer.kind.nodes

/-- A node and all nodes that it holds, at any depth, were built before some identity was handed
out. -/
def Schema.BuiltBy (now : Nat) (node : Schema γ) : Prop :=
  ∀ inner, Relation.ReflTransGen Fluent.Holds node inner → inner.id.index < now

/-- The nodes that slots were defined as were built before a run, and a getter builds the node that
it hands out. -/
structure Scope.Built (scope : Scope γ) (start : Nat) : Prop where
  slots : ∀ name node, scope.slots name = some node → node.BuiltBy start
  getters : ∀ getter now, start ≤ now → now ≤ (scope.build getter now).2 ∧
    (scope.build getter now).1.BuiltBy (scope.build getter now).2

namespace Schema.BuiltBy

variable {now later : Nat} {node inner : Schema γ}

theorem lt (h : node.BuiltBy now) : node.id.index < now := h node .refl

theorem mono (le : now ≤ later) (h : node.BuiltBy now) : node.BuiltBy later :=
  fun inner holds => Nat.lt_of_lt_of_le (h inner holds) le

theorem of_holds (h : node.BuiltBy now) (holds : Fluent.Holds node inner) : inner.BuiltBy now :=
  fun other further => h other (.head holds further)

/-- A node has been built if those have been that its layer holds. -/
theorem of_nodes {layer : Fluent.Layer γ} (seen : node.payload.fluent? = some layer)
    (lt : node.id.index < now) (inside : ∀ inner ∈ layer.kind.nodes, inner.BuiltBy now) :
    node.BuiltBy now := by
  intro inner holds
  rcases holds.cases_head with rfl | ⟨other, ⟨layer', seen', mem⟩, further⟩
  · exact lt
  · obtain rfl := Option.some.inj (seen.symm.trans seen')
    exact inside other mem inner further

/-- A node of another vendor holds no nodes. -/
theorem of_lt (plain : node.payload.fluent? = none) (lt : node.id.index < now) :
    node.BuiltBy now := by
  intro inner holds
  rcases holds.cases_head with rfl | ⟨other, ⟨layer, seen, -⟩, -⟩
  · exact lt
  · cases plain.symm.trans seen

end Schema.BuiltBy

namespace Scope.Built

open BuiltNodes

variable {scope : Scope γ} {start : Nat}

/-- The nodes that have been built, with all nodes that they hold, by moments from the start on. -/
def nodes (γ : Type) (start : Nat) : BuiltNodes (Payload γ) where
  built now node := start ≤ now ∧ Schema.BuiltBy now node
  mono le _ h := ⟨Nat.le_trans h.1 le, h.2.mono le⟩
  lt h := h.2.lt

/-- What a deferred layer stands for has been built when it is handed out. -/
theorem target (h : scope.Built start) {now : Nat} (le : start ≤ now)
    (target : Fluent.Deferred γ) : now ≤ (scope.target target now).2 ∧
      ∀ node, (scope.target target now).1 = .ok node →
        node.BuiltBy (scope.target target now).2 := by
  cases target with
  | slot name =>
    rw [Scope.target]
    cases defined : scope.slots name with
    | none =>
      refine ⟨le_rfl, ?_⟩
      rintro _ ⟨⟩
    | some node =>
      refine ⟨le_rfl, ?_⟩
      rintro _ ⟨⟩
      exact (h.slots name node defined).mono le
  | getter build =>
    obtain ⟨grows, built⟩ := h.getters build now le
    refine ⟨grows, ?_⟩
    rintro _ ⟨⟩
    exact built

/-- The fluent adapter only hands out nodes that have been built. -/
theorem mirrors_fluent (h : scope.Built start) {stage : Nat} {node : Schema γ}
    {layer : Fluent.Layer γ} (seen : node.payload = .fluent layer) (le : start ≤ stage)
    (built : node.BuiltBy stage) :
    Adapter.Mirrors (nodes γ start).pairing.toPairing stage (Fluent.adapter scope)
      (Fluent.adapter scope) node node := by
  have held {now : Nat} (later : stage ≤ now) (part : Schema γ) (mem : part ∈ layer.kind.nodes) :
      start ≤ now ∧ part.BuiltBy now :=
    ⟨le.trans later, (built.of_holds ⟨layer, Fluent.fluent?_eq_some_iff.2 seen, mem⟩).mono later⟩
  have inner : Answer.Mirrors (nodes γ start).pairing.toPairing stage
      (fun later => Option.Rel ((nodes γ start).pairing.nodes later))
      ((Fluent.adapter scope).inner node) ((Fluent.adapter scope).inner node) := by
    refine answer_mirrors fun now later => ?_
    cases predicate : layer.kind.predicate with
    | modifier modifier =>
      rcases Fluent.inner_adapter scope seen predicate with
        ⟨part, nodes, always⟩ | ⟨target, -, always⟩
      · rw [always]
        refine ⟨le_rfl, ?_⟩
        rintro _ ⟨⟩
        exact .some ⟨rfl, held later part (nodes ▸ List.mem_singleton_self _)⟩
      · rw [always]
        obtain ⟨grows, given⟩ := h.target (le.trans later) target
        refine ⟨grows, fun value gives => ?_⟩
        cases result : (scope.target target now).1 with
        | error error =>
          rw [result] at gives
          cases gives
        | ok other =>
          rw [result] at gives
          obtain rfl := Except.ok.inj gives
          exact .some ⟨rfl, (le.trans later).trans grows, given other result⟩
    | shape shape =>
      rw [Fluent.inner_of_shape scope seen predicate]
      refine ⟨le_rfl, ?_⟩
      rintro _ ⟨⟩
      exact .none
  -- Only what is inside depends on the scope, so the other answers grow as they do in any scope.
  have grows : (Fluent.adapter ⟨fun _ => none, fun _ => pure node⟩).Grows node :=
    Fluent.grows_adapter seen fun target _ => by cases target <;> exact fun _ => le_rfl
  have option {answer : Answer (Option (Schema γ))} (grows : answer.Grows)
      (within : ∀ part, Answer.Gives answer (some part) → part ∈ layer.kind.nodes) :
      Answer.Mirrors (nodes γ start).pairing.toPairing stage
        (fun later => Option.Rel ((nodes γ start).pairing.nodes later)) answer answer :=
    answer_mirrors fun now later => ⟨grows now, fun value gives => rel_self fun part mem =>
      held (later.trans (grows now)) part (within part ⟨now, mem ▸ gives⟩)⟩
  have list {answer : Answer (List (Schema γ))} (grows : answer.Grows)
      (within : ∀ parts part, Answer.Gives answer parts → part ∈ parts → part ∈ layer.kind.nodes) :
      Answer.Mirrors (nodes γ start).pairing.toPairing stage
        (fun later => List.Forall₂ ((nodes γ start).pairing.nodes later)) answer answer :=
    answer_mirrors fun now later => ⟨grows now, fun value gives => forall₂_self fun part mem =>
      held (later.trans (grows now)) part (within value part ⟨now, gives⟩ mem)⟩
  have mem_nodes {shape : Shape} {part : Schema γ}
      (extracts : (Fluent.adapter scope).Extracts node shape part) : part ∈ layer.kind.nodes :=
    Fluent.mem_nodes_of_extracts seen extracts
  have entries : Answer.Mirrors (nodes γ start).pairing.toPairing stage
      (fun later => List.Forall₂ fun a b => a.1 = b.1 ∧ (nodes γ start).pairing.nodes later a.2 b.2)
      ((Fluent.adapter scope).entries node) ((Fluent.adapter scope).entries node) :=
    answer_mirrors fun now later => ⟨grows.entries now, fun value gives => entries_self
      fun part mem => held (later.trans (grows.entries now)) part (by
        obtain ⟨entry, isEntry, rfl⟩ := List.mem_map.1 mem
        exact mem_nodes (.entry ⟨now, gives⟩ isEntry))⟩
  exact
    { modifier := rfl, shape := rfl, literal := rfl, values := rfl, className := rfl,
      constraints := rfl, description := rfl, title := rfl, default := rfl, examples := rfl,
      isDeprecated := rfl
      inner := inner
      entries := entries
      element := option grows.element fun _ gives => mem_nodes (.element gives)
      options := list grows.options fun _ _ gives mem => mem_nodes (.option gives mem)
      positions := list grows.positions fun _ _ gives mem => mem_nodes (.position gives mem)
      rest := option grows.rest fun _ gives => mem_nodes (.rest gives)
      recordKey := option grows.recordKey fun _ gives => mem_nodes (.recordKey gives)
      recordValue := option grows.recordValue fun _ gives => mem_nodes (.recordValue gives)
      mapKey := option grows.mapKey fun _ gives => mem_nodes (.mapKey gives)
      mapValue := option grows.mapValue fun _ gives => mem_nodes (.mapValue gives)
      member := option grows.member fun _ gives => mem_nodes (.member gives)
      parts := list grows.parts fun _ _ gives mem => mem_nodes (.conjunct gives mem)
      awaited := option grows.awaited fun _ gives => mem_nodes (.awaited gives) }

/-- The vendors at hand only hand out nodes that have been built. -/
theorem mirrors (h : scope.Built start) (policy : ClaimPolicy) :
    Registry.Mirrors (nodes γ start).pairing (.standard scope policy) (.standard scope policy) := by
  rintro stage node _ ⟨rfl, le, built⟩
  cases claims : ((Registry.standard scope policy).resolve node).value with
  | none => exact .none
  | some claimer =>
    refine .some ?_
    rcases Registry.claimed_cases claims with ⟨rfl, layer, seen⟩ | ⟨-, isDescription⟩
    · exact h.mirrors_fluent seen le built
    · refine anew_mirrors (Describe.anew_of_claimed node isDescription claimer claims)
        fun before now part from_stage new => ⟨le.trans from_stage, .of_lt ?_ new.upper⟩
      obtain ⟨doc, holds⟩ := new.ofKind
      rw [holds]
      rfl

end Scope.Built

end SchemaBridge
