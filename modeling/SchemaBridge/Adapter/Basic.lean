import SchemaBridge.Constraints
import SchemaBridge.Event
import SchemaBridge.Node
import SchemaBridge.Validation.Report
import SchemaBridge.Predicate

/-!
# Adapters

An adapter answers every question that the compiler and the validator ask about the nodes of one
vendor. Only its name and the nodes that it claims are required; the answer to everything else
defaults to "no", "none" or "not supported", so a partial adapter is a complete one.

## Main definitions

* `Answer` : answers that may build nodes and may fail.
* `Verdict` : what comes of running a vendor's validator.
* `Adapter` : the questions.
* `Adapter.modifier?`, `Adapter.shape?` : the first predicate that holds of a node.
-/

namespace SchemaBridge

/-- An answer of an adapter: it may build nodes, and it may fail. -/
abbrev Answer := ExceptT VendorError Fresh

/-- What comes of running a vendor's validator. -/
abbrev Verdict := Logged (Except VendorError VendorOutcome)

/-- The questions that are put to a vendor about its nodes. -/
structure Adapter (π : Type) where
  /-- The name of the vendor. -/
  vendor : String
  /-- The node belongs to the vendor. -/
  claims : Node π → Bool
  /-- The predicate holds of the node. -/
  holds : TypePredicate → Node π → Bool := fun _ _ => false
  /-- The node inside a modifier. -/
  inner : Node π → Answer (Option (Node π)) := fun _ => pure none
  /-- The entries of an object, in declaration order. -/
  entries : Node π → Answer (List (String × Node π)) := fun _ => pure []
  /-- The element of an array. -/
  element : Node π → Answer (Option (Node π)) := fun _ => pure none
  /-- The options of a union. -/
  options : Node π → Answer (List (Node π)) := fun _ => pure []
  /-- The value of a literal. -/
  literal : Node π → Option Json := fun _ => none
  /-- The values of an enumeration. -/
  values : Node π → List Json := fun _ => []
  /-- The fixed positions of a tuple. -/
  positions : Node π → Answer (List (Node π)) := fun _ => pure []
  /-- The element after the fixed positions of a tuple. -/
  rest : Node π → Answer (Option (Node π)) := fun _ => pure none
  /-- The keys of a record. -/
  recordKey : Node π → Answer (Option (Node π)) := fun _ => pure none
  /-- The values of a record. -/
  recordValue : Node π → Answer (Option (Node π)) := fun _ => pure none
  /-- The keys of a map. -/
  mapKey : Node π → Answer (Option (Node π)) := fun _ => pure none
  /-- The values of a map. -/
  mapValue : Node π → Answer (Option (Node π)) := fun _ => pure none
  /-- The element of a set. -/
  member : Node π → Answer (Option (Node π)) := fun _ => pure none
  /-- The parts of an intersection. -/
  parts : Node π → Answer (List (Node π)) := fun _ => pure []
  /-- The node inside a promise. -/
  awaited : Node π → Answer (Option (Node π)) := fun _ => pure none
  /-- The class of an instance. -/
  className : Node π → Option String := fun _ => none
  /-- The constraints of the node itself, without those of its parts. -/
  constraints : Node π → Option Constraints := fun _ => none
  /-- The description of the node. -/
  description : Node π → Option String := fun _ => none
  /-- The title of the node. -/
  title : Node π → Option String := fun _ => none
  /-- The default of the node. -/
  default : Node π → Option Json := fun _ => none
  /-- The examples of the node. -/
  examples : Node π → List Json := fun _ => []
  /-- The node is deprecated. -/
  isDeprecated : Node π → Bool := fun _ => false
  /-- Runs the vendor's validator. -/
  validate : Node π → Json → Verdict :=
    fun _ _ => pure (.error (.unsupported vendor "validate"))
  /-- Runs the vendor's asynchronous validator. -/
  asyncValidate : Node π → Json → Verdict := validate

namespace Adapter

variable {π : Type}

/-- An answer that is a failure. -/
def fail {α : Type} (error : VendorError) : Answer α := throw error

/-- The first modifier predicate that holds of a node. -/
def modifier? (adapter : Adapter π) (node : Node π) : Option Modifier :=
  Modifier.priority.find? fun m => adapter.holds (.modifier m) node

/-- The first shape predicate that holds of a node. -/
def shape? (adapter : Adapter π) (node : Node π) : Option Shape :=
  Shape.priority.find? fun s => adapter.holds (.shape s) node

theorem holds_of_modifier? {adapter : Adapter π} {node : Node π} {m : Modifier}
    (h : adapter.modifier? node = some m) : adapter.holds (.modifier m) node = true := by
  have := List.find?_some h
  exact this

theorem holds_of_shape? {adapter : Adapter π} {node : Node π} {s : Shape}
    (h : adapter.shape? node = some s) : adapter.holds (.shape s) node = true := by
  have := List.find?_some h
  exact this

theorem modifier?_eq_none_iff {adapter : Adapter π} {node : Node π} :
    adapter.modifier? node = none ↔ ∀ m, adapter.holds (.modifier m) node = false := by
  simp only [modifier?, List.find?_eq_none, Bool.not_eq_true]
  exact ⟨fun h m => h m (Modifier.mem_priority m), fun h m _ => h m⟩

end Adapter

end SchemaBridge
