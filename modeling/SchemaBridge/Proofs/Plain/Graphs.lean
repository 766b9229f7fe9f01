import SchemaBridge.Proofs.Compile.Reentries
import SchemaBridge.Proofs.Plain.Acyclic
import SchemaBridge.Proofs.Plain.Unfolding

/-!
# Schemas whose nodes are all there

If the questions about the nodes below a node are settled, so that asking twice gives the same
nodes, then the schema is a graph in the ordinary sense. It is acyclic if no node of the graph is on
a walk from itself, and every node has the same unfolding as itself.

## Main results

* `acyclic_of_walks` : a schema without walks that come back is acyclic.
* `Registry.sameUnfolding_self` : a node of settled questions has the same unfolding as itself.
-/

namespace SchemaBridge

variable {π β : Type}

/-! ### Walks that do not come back -/

theorem Plan.Offers.mentions {α : Type} {plan : Plan π α} {before now : Nat} {part : Node π}
    (h : Offers before plan now part) : Mentions plan part := by
  induction h with
  | here => exact .here
  | later _ _ ih => exact .later ih
  | ask _ gives _ ih => exact .ask ⟨_, congrArg Prod.fst gives⟩ ih

variable {context : CompileContext π}

/-- A node leads to what stands directly below it at some moment. -/
theorem Arrival.Below.leads {a b : Arrival π} (h : Below context a b) :
    Leads context.registry a.node b.node := by
  cases h with
  | inside claims wrapped _ gives => exact .inside claims wrapped ⟨_, congrArg Prod.fst gives⟩
  | part claims bare seen offers =>
    refine .part claims (bare.imp_right ?_) seen (Structure.extracts_of_mentions offers.mentions)
    exact fun ⟨asked, _, _, gives⟩ => ⟨asked, congrArg Prod.fst gives⟩

/-- A schema is acyclic if no node leads back to itself, and answers only use identities up. -/
theorem acyclic_of_walks {root : Arrival π}
    (grows : ∀ other, Relation.ReflTransGen (Leads context.registry) root.node other →
      ∀ adapter, (context.registry.resolve other).value = some adapter → adapter.Grows other)
    (loopless : ∀ a b, Relation.ReflTransGen (Leads context.registry) root.node a →
      Relation.TransGen (Leads context.registry) a b → b.id ≠ a.id) : Acyclic context root where
  grows a reaches adapter claims :=
    have leads := reaches.lift Arrival.node fun _ _ => Arrival.Below.leads
    have grows := grows a.node leads adapter claims
    ⟨grows.inner, fun shape _ => Structure.grows_ofShape grows _ shape⟩
  loopless a b reaches further :=
    loopless a.node b.node (reaches.lift Arrival.node fun _ _ => Arrival.Below.leads)
      (further.lift Arrival.node fun _ _ => Arrival.Below.leads)

/-! ### Settled questions -/

/-- A settled question is answered like itself. -/
theorem Answer.Settled.alike {answer : Answer β} (h : answer.Settled) {related : β → β → Prop}
    (given : ∀ value, Gives answer value → related value value) : Alike related answer answer := by
  intro supply supply'
  obtain ⟨value, always⟩ := h
  rw [always, always]
  exact .given (given value ⟨0, always 0⟩)

/-- An adapter that answers all questions about a node in a settled way answers like itself, if the
nodes that it hands out are related to themselves. -/
theorem Adapter.Steady.alike {adapter : Adapter π} {node : Node π} (h : adapter.Steady node)
    {nodes : Node π → Node π → Prop}
    (inside : ∀ part, Answer.Gives (adapter.inner node) (some part) → nodes part part)
    (parts : ∀ shape part, adapter.Extracts node shape part → nodes part part) :
    Adapter.Alike nodes adapter adapter node node := by
  have part? {value : Option (Node π)} (given : ∀ part, value = some part → nodes part part) :
      Option.Rel nodes value value := by
    cases value with
    | none => exact .none
    | some part => exact .some (given part rfl)
  have every {values : List (Node π)} (given : ∀ part ∈ values, nodes part part) :
      List.Forall₂ nodes values values := List.forall₂_same.2 given
  exact
    { modifier := rfl, shape := rfl, literal := rfl, values := rfl, className := rfl,
      constraints := rfl, description := rfl, title := rfl, default := rfl, examples := rfl,
      isDeprecated := rfl
      inner := h.inner.alike fun _ gives => part? fun part same => inside part (same ▸ gives)
      entries := h.entries.alike fun _ gives => List.forall₂_same.2 fun entry mem =>
        ⟨rfl, parts _ entry.2 (.entry gives mem)⟩
      element := h.element.alike fun _ gives => part? fun part same =>
        parts _ part (.element (same ▸ gives))
      options := h.options.alike fun _ gives => every fun part mem =>
        parts _ part (.option gives mem)
      positions := h.positions.alike fun _ gives => every fun part mem =>
        parts _ part (.position gives mem)
      rest := h.rest.alike fun _ gives => part? fun part same => parts _ part (.rest (same ▸ gives))
      recordKey := h.recordKey.alike fun _ gives => part? fun part same =>
        parts _ part (.recordKey (same ▸ gives))
      recordValue := h.recordValue.alike fun _ gives => part? fun part same =>
        parts _ part (.recordValue (same ▸ gives))
      mapKey := h.mapKey.alike fun _ gives => part? fun part same =>
        parts _ part (.mapKey (same ▸ gives))
      mapValue := h.mapValue.alike fun _ gives => part? fun part same =>
        parts _ part (.mapValue (same ▸ gives))
      member := h.member.alike fun _ gives => part? fun part same =>
        parts _ part (.member (same ▸ gives))
      parts := h.parts.alike fun _ gives => every fun part mem =>
        parts _ part (.conjunct gives mem)
      awaited := h.awaited.alike fun _ gives => part? fun part same =>
        parts _ part (.awaited (same ▸ gives)) }

/-- A node has the same unfolding as itself, if it is one of some nodes that are steady and hand out
such nodes only. -/
theorem Registry.sameUnfolding_self {registry : Registry π} {among : Node π → Prop} {node : Node π}
    (mem : among node) (steady : ∀ other, among other → Steady registry other)
    (kept : ∀ other adapter, among other → (registry.resolve other).value = some adapter →
      (∀ part, Answer.Gives (adapter.inner other) (some part) → among part) ∧
        ∀ shape part, adapter.Extracts other shape part → among part) :
    SameUnfolding registry node node := by
  refine ⟨fun a b => a = b ∧ among a, ?_, rfl, mem⟩
  rintro other _ ⟨rfl, isAmong⟩
  cases claims : (registry.resolve other).value with
  | none => exact .none
  | some adapter =>
    obtain ⟨inside, parts⟩ := kept other adapter isAmong claims
    exact .some ((steady other isAmong adapter claims).alike
      (fun part gives => ⟨rfl, inside part gives⟩)
      (fun shape part extracts => ⟨rfl, parts shape part extracts⟩))

end SchemaBridge
