import Mathlib.Data.Nat.Basic
import SchemaBridge.Proofs.Compile.Calls
import SchemaBridge.Proofs.Mirror.Runs
import SchemaBridge.Proofs.Plain.Freshness

/-!
# Nodes that have been built

A run only comes to nodes that have been built by then: those that were there at the start, and
those that adapters built meanwhile. Every graph mirrors itself, each node with itself as partner;
if nodes are partners only once they have been built, then to say that the graph mirrors itself is
to say that adapters hand out no other ones. So what holds of mirrored runs tells which identities
the nodes in progress have: none that is still unused.

## Main definitions

* `BuiltNodes` : which nodes have been built by some moment.
* `BuiltNodes.pairing` : every node with itself as partner, once it has been built.

## Main results

* `Call.Within.mirrors` : what mirrors itself at the start of a run does so at each of its calls.
* `BuiltNodes.anew_mirrors` : adapters whose answers are new.
* `BuiltNodes.lt_supply` : the nodes in progress have been built.
-/

namespace SchemaBridge

variable {π β : Type}

/-! ### Calls of a mirrored run -/

section

variable {σ : Type} [Preorder σ] {W : Correspondence σ π π} {stage : σ} {context : CompileContext π}

open Correspondence CompileM Ledger Compile Chain

/-- What mirrors itself at the start of a plan does so where a part is compiled. -/
theorem Plan.Visits.mirrors {child : Node π → CompileM NodeSchema}
    (children : PartsMirror W child child)
    {α : Type} {plan : Plan π α} {s t : Ledger} {part : Node π}
    (visits : Visits child plan s part t)
    {related : σ → α → α → Prop} (plans : Mirrors W.toPairing stage related plan plan)
    (books : Ledger.Mirrors W stage s s) :
    ∃ later, stage ≤ later ∧ W.nodes later part part ∧ Ledger.Mirrors W later t t := by
  induction visits generalizing stage with
  | here =>
    cases plans with
    | compile parts _ => exact ⟨stage, le_rfl, parts, books⟩
  | later _ ih =>
    cases plans with
    | compile parts rest =>
      obtain ⟨between, le, -, books⟩ := children _ _ _ parts stage le_rfl _ _ books
      obtain ⟨later, le', result⟩ := ih (rest between le _) books
      exact ⟨later, le.trans le', result⟩
  | @ask γ answer next given supply other s t gives _ ih =>
    cases plans with
    | ask answers rest =>
      obtain ⟨between, le, both, books⟩ := ask_mirrors answers stage le_rfl _ _ books
      have answered : Ledger.ask answer s = (.ok given, { s with supply }) := ask_of_ok gives
      dsimp only [ExceptT.run] at both books
      rw [answered] at both books
      obtain _ | related := both
      obtain ⟨later, le', result⟩ := ih (rest between le _ _ related) books
      exact ⟨later, le.trans le', result⟩

variable (contexts : CompileContext.Mirrors W context context)
include contexts

/-- What mirrors itself before the layers of a node are taken off does so at the end of its
chain. -/
theorem Compile.Peels.mirrors {n : Node π} {adapter : Adapter π} {s t : Ledger}
    {layers : List (PeeledLayer π)} {isOptional : Bool} {stop : Except CompileFailure (ChainEnd π)}
    {ids : List Identity} (peels : Peels context n adapter s layers isOptional stop ids t)
    (claims : (context.registry.resolve n).value = some adapter) (nodes : W.nodes stage n n)
    (books : Ledger.Mirrors W stage s s) :
    ∃ later, stage ≤ later ∧ Ledger.Mirrors W later t t ∧ List.Forall₂ (W.ids later) ids ids ∧
      ∀ base baseAdapter modifier, stop = .ok (.base base baseAdapter modifier) →
        W.nodes later base base ∧
          Adapter.Mirrors W.toPairing later baseAdapter baseAdapter base base := by
  have adapters : Adapter.Mirrors W.toPairing stage adapter adapter n n := by
    have both := contexts.registry stage n n nodes
    rw [claims] at both
    cases both with
    | some alike => exact alike
  obtain ⟨begun, le, -, books⟩ := beginWork_mirrors nodes stage le_rfl s s books
  have off : Peeled.Mirrors W begun ⟨[], [n.id], false⟩ ⟨[], [n.id], false⟩ :=
    ⟨.nil, .cons (ids_of_nodes (W.nodes_mono le nodes)) .nil, rfl⟩
  obtain ⟨later, le', ⟨off, ends⟩, books⟩ :=
    peel_mirrors contexts context.options.maxDepth off (W.nodes_mono le nodes) (adapters.mono le)
      begun le_rfl _ _ books
  rw [peels.runs] at off ends books
  refine ⟨later, le.trans le', books, off.entered, ?_⟩
  rintro base baseAdapter modifier rfl
  obtain _ | ends := ends
  obtain ⟨-, nodes, adapters⟩ := ends
  exact ⟨nodes, adapters⟩

namespace Call

variable {root call inner : Call π}

/-- What mirrors itself at a call does so at each call that it makes. -/
theorem Spawns.mirrors (h : Spawns context call inner) (nodes : W.nodes stage call.node call.node)
    (books : Ledger.Mirrors W stage call.books call.books) :
    ∃ later, stage ≤ later ∧ W.nodes later inner.node inner.node ∧
      Ledger.Mirrors W later inner.books inner.books := by
  obtain ⟨new, claims, peels, seen, visits⟩ := h
  rename_i levels node base part adapter baseAdapter layers isOptional modifier ids shape s t u
  obtain ⟨peeled, le, books, entered, atBase⟩ := peels.mirrors contexts claims nodes { books with }
  obtain ⟨-, adapters⟩ := atBase _ _ _ rfl
  obtain ⟨noted, le', -, books⟩ := noteFamily_mirrors (((baseAdapter.shape? base).map
    Shape.bounds).getD .value) entered peeled le_rfl t t books
  obtain ⟨later, le'', result⟩ := visits.mirrors
    (fun _ _ _ nodes => node_mirrors contexts levels nodes)
    (Structure.ofShape_mirrors context.options (adapters.mono le') shape) books
  exact ⟨later, (le.trans le').trans le'', result⟩

/-- What mirrors itself at the start of a run does so at each of its calls. -/
theorem Within.mirrors (h : Within context root call) (nodes : W.nodes stage root.node root.node)
    (books : Ledger.Mirrors W stage root.books root.books) :
    ∃ later, stage ≤ later ∧ W.nodes later call.node call.node ∧
      Ledger.Mirrors W later call.books call.books := by
  induction h with
  | refl => exact ⟨stage, le_rfl, nodes, books⟩
  | tail _ last ih =>
    obtain ⟨between, le, nodes, books⟩ := ih
    obtain ⟨later, le', result⟩ := last.mirrors contexts nodes books
    exact ⟨later, le.trans le', result⟩

end Call

end

/-! ### Nodes that are partners once they have been built -/

/-- Which nodes have been built by the moment at which some identity is the next unused one. -/
structure BuiltNodes (π : Type) where
  built : Nat → Node π → Prop
  mono : ∀ {now later : Nat}, now ≤ later → ∀ {n : Node π}, built now n → built later n
  /-- The identity of a node that has been built is in use. -/
  lt : ∀ {now : Nat} {n : Node π}, built now n → n.id.index < now

namespace BuiltNodes

/-- Every node with itself as partner, once it has been built. The stages are the moments. -/
def pairing (among : BuiltNodes π) : Correspondence Nat π π where
  nodes now n n' := n = n' ∧ among.built now n
  supplies now supply supply' := supply = now ∧ supply' = now
  nodes_mono le _ _ h := ⟨h.1, among.mono le h.2⟩
  sameNode_iff ha hb := by rw [ha.1, hb.1]

variable {among : BuiltNodes π} {stage now : Nat}

/-- A question is answered like itself, if from a stage on it only uses identities up, and its
answers are related to themselves as soon as they are given. -/
theorem answer_mirrors {answer : Answer β} {related : Nat → β → β → Prop}
    (handed : ∀ now, stage ≤ now → now ≤ (answer now).2 ∧ ∀ value, (answer now).1 = .ok value →
      related (answer now).2 value value) :
    Answer.Mirrors among.pairing.toPairing stage related answer answer := by
  rintro now le supply supply' ⟨same, same'⟩
  rw [same, same']
  obtain ⟨grows, given⟩ := handed now le
  refine ⟨(answer now).2, grows, ?_, rfl, rfl⟩
  cases result : (answer now).1 with
  | error error => exact .failed error error
  | ok value => exact .given (given value result)

theorem rel_self {value : Option (Node π)} (handed : ∀ n ∈ value, among.built now n) :
    Option.Rel (among.pairing.nodes now) value value := by
  cases value with
  | none => exact .none
  | some n => exact .some ⟨rfl, handed n rfl⟩

theorem forall₂_self {values : List (Node π)} (handed : ∀ n ∈ values, among.built now n) :
    List.Forall₂ (among.pairing.nodes now) values values :=
  List.forall₂_same.2 fun n mem => ⟨rfl, handed n mem⟩

theorem entries_self {entries : List (String × Node π)}
    (handed : ∀ n ∈ entries.map Prod.snd, among.built now n) :
    List.Forall₂ (fun a b => a.1 = b.1 ∧ among.pairing.nodes now a.2 b.2) entries entries :=
  List.forall₂_same.2 fun _ mem => ⟨rfl, rfl, handed _ (List.mem_map_of_mem mem)⟩

/-- An adapter whose answers are new nodes answers like itself, if new nodes of their kind are
built. -/
theorem anew_mirrors {kind : Node π → Prop} {adapter : Adapter π} {node : Node π}
    (anew : adapter.Anew kind node)
    (new : ∀ before now n, stage ≤ now → BuiltBetween kind before now n → among.built now n) :
    Adapter.Mirrors among.pairing.toPairing stage adapter adapter node node := by
  have option {answer : Answer (Option (Node π))} (h : answer.Anew kind Option.toList) :
      Answer.Mirrors among.pairing.toPairing stage
        (fun later => Option.Rel (among.pairing.nodes later)) answer answer :=
    answer_mirrors fun now le => ⟨h.1 now, fun value gives => rel_self fun n mem =>
      new now _ n (Nat.le_trans le (h.1 now))
        (h.2 now value _ (Prod.ext gives rfl) n (Option.mem_toList.2 mem))⟩
  have list {answer : Answer (List (Node π))} (h : answer.Anew kind id) :
      Answer.Mirrors among.pairing.toPairing stage
        (fun later => List.Forall₂ (among.pairing.nodes later)) answer answer :=
    answer_mirrors fun now le => ⟨h.1 now, fun value gives => forall₂_self fun n mem =>
      new now _ n (Nat.le_trans le (h.1 now)) (h.2 now value _ (Prod.ext gives rfl) n mem)⟩
  have entries : Answer.Mirrors among.pairing.toPairing stage
      (fun later => List.Forall₂ fun a b => a.1 = b.1 ∧ among.pairing.nodes later a.2 b.2)
      (adapter.entries node) (adapter.entries node) :=
    answer_mirrors fun now le => ⟨anew.entries.1 now, fun value gives => entries_self fun n mem =>
      new now _ n (Nat.le_trans le (anew.entries.1 now))
        (anew.entries.2 now value _ (Prod.ext gives rfl) n mem)⟩
  exact
    { modifier := rfl, shape := rfl, literal := rfl, values := rfl, className := rfl,
      constraints := rfl, description := rfl, title := rfl, default := rfl, examples := rfl,
      isDeprecated := rfl
      inner := option anew.inner
      entries := entries
      element := option anew.element
      options := list anew.options
      positions := list anew.positions
      rest := option anew.rest
      recordKey := option anew.recordKey
      recordValue := option anew.recordValue
      mapKey := option anew.mapKey
      mapValue := option anew.mapValue
      member := option anew.member
      parts := list anew.parts
      awaited := option anew.awaited }

/-- The nodes in progress have been built, so that their identities are in use. -/
theorem lt_supply {s s' : Ledger} (books : Ledger.Mirrors among.pairing stage s s') :
    ∀ id ∈ s.active, id.index < s.supply := by
  intro id mem
  obtain ⟨_, -, n, _, ⟨-, isBuilt⟩, rfl, -⟩ := exists_right_of_forall₂ books.active mem
  rw [books.supply.1]
  exact among.lt isBuilt

end BuiltNodes

end SchemaBridge
