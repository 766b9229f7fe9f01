import Mathlib.Logic.Relation
import SchemaBridge.Proofs.Compile.Description

/-!
# The calls of a run

The compilation of a node calls itself for the parts of the node at the end of its chain, with the
books as they are by then. The calls of a run form a tree, and the answer of a call is described by
the answers of the calls that it makes.

## Main definitions

* `Call` : a node that is compiled, with the levels that are left and the books at that moment.
* `Call.Spawns`, `Call.Within` : the calls that a call makes, at once and at any depth.
* `Call.Enters` : the nodes that a call comes to, along the chain of its own node.
* `Call.Meets` : a call comes upon a node that is in progress.
* `Call.Begins` : the ways in which a call begins.
* `Call.Makes`, `Call.Answers` : what a call makes of a node, and what its answer is.

## Main results

* `Call.induct` : induction on the calls that a call makes.
* `Call.schema_answer` : what compilation keeps holds of the answer of a call.
-/

namespace SchemaBridge

open Chain Ledger Compile Plan

variable {π : Type}

/-- The nodes along a chain: those of the layers, and the one at which it ends, if it is known. -/
def Chain.nodes (layers : List (PeeledLayer π)) : ChainEnd π → List (Node π)
  | .base node _ _ | .reentered node => layers.map (·.node) ++ [node]
  | .unclaimed => layers.map (·.node)

/-- A node that is compiled, with the levels of nodes that are left and the books at that moment. -/
structure Call (π : Type) where
  levels : Nat
  node : Node π
  books : Ledger

namespace Call

/-- What a call answers. -/
def answer (context : CompileContext π) (call : Call π) : NodeSchema :=
  (Compile.node context call.levels call.node call.books).1

/-- The books after a call. -/
def after (context : CompileContext π) (call : Call π) : Ledger :=
  (Compile.node context call.levels call.node call.books).2

/-- The books when the adapter of the node of a call has been found. -/
def resolved (context : CompileContext π) (call : Call π) : Ledger :=
  (resolve context call.node call.books).2

/-- A call makes another one for a part of the node at the end of its chain. -/
inductive Spawns (context : CompileContext π) : Call π → Call π → Prop where
  | intro {levels : Nat} {node base part : Node π} {adapter baseAdapter : Adapter π}
      {layers : List (PeeledLayer π)} {isOptional : Bool} {modifier : Option Modifier}
      {ids : List Identity} {shape : Shape} {s t u : Ledger}
      (new : node.id ∉ s.active) (claims : (context.registry.resolve node).value = some adapter)
      (peels : Peels context node adapter (resolved context ⟨levels + 1, node, s⟩) layers isOptional
        (.ok (.base base baseAdapter modifier)) ids t)
      (seen : baseAdapter.shape? base = some shape)
      (visits : Visits (Compile.node context levels)
        (Structure.ofShape context.options base baseAdapter shape) (noted base baseAdapter ids t)
        part u) :
      Spawns context ⟨levels + 1, node, s⟩ ⟨levels, part, u⟩

/-- A call makes another one, at once or at any depth, or is that call. -/
def Within (context : CompileContext π) : Call π → Call π → Prop :=
  Relation.ReflTransGen (Spawns context)

/-- A call comes to a node: to its own, or to one along the chain of its own. -/
inductive Enters (context : CompileContext π) : Call π → Node π → Prop where
  | self (call : Call π) : Enters context call call.node
  | along {levels : Nat} {node inner : Node π} {adapter : Adapter π} {s t : Ledger}
      {layers : List (PeeledLayer π)} {isOptional : Bool} {stop : ChainEnd π} {ids : List Identity}
      (new : node.id ∉ s.active) (claims : (context.registry.resolve node).value = some adapter)
      (peels : Peels context node adapter (resolved context ⟨levels + 1, node, s⟩) layers isOptional
        (.ok stop) ids t) (mem : inner ∈ Chain.nodes layers stop) :
      Enters context ⟨levels + 1, node, s⟩ inner

/-- A call comes upon a node in progress: it is made for it, or finds it inside its chain. -/
inductive Meets (context : CompileContext π) (id : Identity) : Call π → Prop where
  | here {call : Call π} (same : call.node.id = id) (active : id ∈ call.books.active) :
      Meets context id call
  | inside {levels : Nat} {node again : Node π} {adapter : Adapter π} {s t : Ledger}
      {layers : List (PeeledLayer π)} {isOptional : Bool} {ids : List Identity}
      (new : node.id ∉ s.active) (claims : (context.registry.resolve node).value = some adapter)
      (peels : Peels context node adapter (resolved context ⟨levels + 1, node, s⟩) layers isOptional
        (.ok (.reentered again)) ids t) (same : again.id = id) :
      Meets context id ⟨levels + 1, node, s⟩

/-- A call makes another one for a part, and gets this answer. -/
def Hands (context : CompileContext π) (call : Call π) (part : Node π) (c : NodeSchema) : Prop :=
  ∃ inner, Spawns context call inner ∧ inner.node = part ∧ inner.answer context = c

/-- A call makes of a node that it comes to, by the names in some books, what the answers that the
calls for parts get make of it. -/
def Makes (context : CompileContext π) (s : Ledger) (call : Call π) : Node π → NodeSchema → Prop :=
  Builds context s.names s.Limited (Enters context call) (Hands context call)

/-- The answer of a call, by the names in some books: its node is referred to, or compiled
itself. -/
def Answers (context : CompileContext π) (s : Ledger) (call : Call π) : Prop :=
  Refers s.names call.node (call.answer context) ∨
    call.Makes context s call.node (call.answer context)

/-- A call begins in one of these ways: its node is in progress, lies too deep, or is claimed by
nobody or by an adapter. -/
inductive Begins (context : CompileContext π) : Call π → Prop where
  | inProgress {levels : Nat} {node : Node π} {s : Ledger} (active : node.id ∈ s.active) :
      Begins context ⟨levels, node, s⟩
  | tooDeep {node : Node π} {s : Ledger} (new : node.id ∉ s.active) : Begins context ⟨0, node, s⟩
  | unclaimed {levels : Nat} {node : Node π} {s : Ledger} (new : node.id ∉ s.active)
      (nobody : (context.registry.resolve node).value = none) :
      Begins context ⟨levels + 1, node, s⟩
  | claimed {levels : Nat} {node : Node π} {adapter : Adapter π} {s : Ledger}
      (new : node.id ∉ s.active)
      (claims : (context.registry.resolve node).value = some adapter) :
      Begins context ⟨levels + 1, node, s⟩

/-- There are no other ways. -/
theorem begins (context : CompileContext π) (call : Call π) : Begins context call := by
  obtain ⟨levels, node, s⟩ := call
  by_cases active : node.id ∈ s.active
  · exact .inProgress active
  · cases levels with
    | zero => exact .tooDeep active
    | succ levels =>
      cases claims : (context.registry.resolve node).value with
      | none => exact .unclaimed active claims
      | some adapter => exact .claimed active claims

variable {context : CompileContext π} {call inner : Call π} {s t : Ledger}

theorem Spawns.levels (h : Spawns context call inner) : call.levels = inner.levels + 1 := by
  cases h
  rfl

theorem Makes.of_grows {node : Node π} {c : NodeSchema} (h : call.Makes context s node c)
    (grows : Grows s t) : call.Makes context t node c :=
  Builds.mono grows.names grows.limited h

theorem Answers.of_grows (h : Answers context s call) (grows : Grows s t) :
    Answers context t call :=
  h.imp (.mono grows.names) (.of_grows · grows)

/-- What holds of a call whenever it holds of the calls that it makes holds of every call: each of
them has fewer levels left. -/
@[elab_as_elim]
theorem induct (context : CompileContext π) {motive : Call π → Prop} (call : Call π)
    (step : ∀ call, (∀ inner, Spawns context call inner → motive inner) → motive call) :
    motive call := by
  generalize left : call.levels = levels
  induction levels using Nat.strongRecOn generalizing call with
  | ind levels ih =>
    refine step call fun inner spawns => ih inner.levels ?_ inner rfl
    have := spawns.levels
    omega

/-- What compilation keeps holds of the answer of a call. -/
theorem schema_answer {P : Json.Fields → Prop} (kept : SchemaInvariant context s.names P)
    (answers : ∀ inner, Within context call inner → Answers context s inner) :
    P (call.answer context).schema := by
  induction call using induct context with
  | step call ih =>
    rcases answers call .refl with refers | builds
    · exact refers.schema kept
    · refine builds.schema kept ?_
      rintro part _ ⟨inner, spawns, -, rfl⟩
      exact ih inner spawns fun other within => answers other (.head spawns within)

/-- What compilation keeps holds of what is compiled from the answers of the calls for parts. -/
theorem schema_of_makes {P : Json.Fields → Prop} (kept : SchemaInvariant context s.names P)
    (answers : ∀ inner, Within context call inner → Answers context s inner) {node : Node π}
    {c : NodeSchema} (h : call.Makes context s node c) : P c.schema := by
  refine Builds.schema kept ?_ h
  rintro part _ ⟨inner, spawns, -, rfl⟩
  exact schema_answer kept fun other within => answers other (.head spawns within)

end Call

end SchemaBridge
