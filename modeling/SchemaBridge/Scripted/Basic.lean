import SchemaBridge.Adapter.Error
import SchemaBridge.Constraints
import SchemaBridge.Validation.Report
import SchemaBridge.Predicate

/-!
# Scripted schemas

A schema whose vendor has no rules of its own: a script lists, question by question, what is to be
answered. It stands for any vendor, one that contradicts itself or fails included. Nodes in a script
are not held but named by a getter, and are built anew for every question.

## Main definitions

* `Failure` : an error that does not yet know who raises it.
* `Script` : the answers, over a type `γ` of getters.
-/

namespace SchemaBridge

/-- The kinds of adapter errors. -/
inductive FailureKind where
  | malformed
  | unsupported
  | native
  deriving DecidableEq, Repr

/-- An error that need not name the vendor that raises it. -/
structure Failure where
  kind : FailureKind
  text : String
  vendor : Option String
  deriving DecidableEq, Repr

/-- The error that a vendor raises. -/
def Failure.toError (failure : Failure) (vendor : String) : VendorError :=
  let vendor := failure.vendor.getD vendor
  match failure.kind with
  | .malformed => .malformed vendor failure.text
  | .unsupported => .unsupported vendor failure.text
  | .native => .native vendor failure.text

/-- The answers of a schema without rules. What is not listed is answered by the default. -/
structure Script (γ : Type) where
  /-- The vendors that claim the schema. -/
  vendors : List String := []
  /-- The predicates that hold. -/
  predicates : List TypePredicate := []
  inner : Option (Except Failure γ) := none
  entries : Option (Except Failure (List (String × γ))) := none
  element : Option (Except Failure γ) := none
  options : Option (Except Failure (List γ)) := none
  items : Option (Except Failure (List γ)) := none
  rest : Option (Except Failure γ) := none
  recordKey : Option (Except Failure γ) := none
  recordValue : Option (Except Failure γ) := none
  mapKey : Option (Except Failure γ) := none
  mapValue : Option (Except Failure γ) := none
  member : Option (Except Failure γ) := none
  parts : Option (Except Failure (List γ)) := none
  awaited : Option (Except Failure γ) := none
  literal : Option Json := none
  values : List Json := []
  className : Option String := none
  constraints : Option Constraints := none
  description : Option String := none
  title : Option String := none
  default : Option Json := none
  examples : List Json := []
  deprecated : Bool := false
  /-- What validation answers. -/
  outcome : Option (Except Failure VendorOutcome) := none
  /-- What asynchronous validation answers, if not the same. -/
  asyncOutcome : Option (Except Failure VendorOutcome) := none

end SchemaBridge
