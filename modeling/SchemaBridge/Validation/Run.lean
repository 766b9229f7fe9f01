import SchemaBridge.Validation.Path
import SchemaBridge.Registry

/-!
# Validation through a registry

A validator asks the adapter of a node to run its vendor's validator, and brings whatever comes back
into one form. It never judges data itself, and it always answers.

## Main definitions

* `Validate.report` : a vendor's answer as a result.
* `Validate.unclaimed` : the result for a node that nobody claims.
* `Registry.validate`, `Registry.asyncValidate` : validation against a node.
-/

namespace SchemaBridge

namespace Validate

/-- The message of an issue whose vendor gives none. -/
def unexplained : String := "validation failed"

/-- A vendor's issue as an issue. -/
def issue (reported : VendorIssue) : Issue :=
  let message := if reported.message.isEmpty then unexplained else reported.message
  match reported.path with
  | some path => Issue.located message (Path.steps path)
  | none => Issue.root message

/-- A vendor's answer as a result; the input is the data of a vendor that only says yes. -/
def report (input : Json) : Except VendorError VendorOutcome → Logged ValidationReport
  | .ok (.parsed output) => pure (.success output)
  | .ok .accepted => pure (.success input)
  | .ok .rejected => pure (.ofMessage unexplained)
  | .ok (.issues []) => pure (.ofMessage unexplained)
  | .ok (.issues list) => pure (.failure (list.map issue))
  | .error error => do
    Logged.report (.validatorFailed error)
    return .ofMessage error.message

/-- The result for a node that nobody claims. -/
def unclaimed {π : Type} (node : Node π) : Logged ValidationReport := do
  Logged.report (.unsupportedNode node.typeName)
  return .ofMessage <|
    "unsupported schema: no registered adapter recognizes a value of type `" ++ node.typeName ++ "`"

end Validate

namespace Registry

variable {π : Type}

/-- Runs a validator of the adapter of a node, if it has one. -/
def validateWith (run : Adapter π → Node π → Json → Verdict) (registry : Registry π) (node : Node π)
    (data : Json) : Logged ValidationReport := do
  match ← registry.resolve node with
  | some adapter =>
    let outcome ← run adapter node data
    Validate.report data outcome
  | none => Validate.unclaimed node

/-- Validates data against a node with its vendor's validator. -/
def validate : Registry π → Node π → Json → Logged ValidationReport :=
  validateWith Adapter.validate

/-- Validates data against a node with its vendor's asynchronous validator. -/
def asyncValidate : Registry π → Node π → Json → Logged ValidationReport :=
  validateWith Adapter.asyncValidate

end Registry

end SchemaBridge
