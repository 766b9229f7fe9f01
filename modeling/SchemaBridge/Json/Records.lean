import SchemaBridge.Constraints
import SchemaBridge.Json.Decode
import SchemaBridge.Validation.Report
import SchemaBridge.Policy

/-!
# Reading records

The readers of constraints, policies, path steps and issues. A bound that is written as `null`,
because it is no finite number, is read as one that is not set.

## Main definitions

* `Constraints.read`, `ClaimPolicy.read`, `PathStep.read`, `Issue.read` : the readers.
-/

namespace SchemaBridge

/-- Constraints; every field may be missing or `null`. -/
def Constraints.read : Decode.Reader Constraints := fun source => do
  let found ← Decode.fields true
    ["min", "max", "minLength", "maxLength", "pattern", "format"] source
  return {
    min := ← Decode.field found "min" (Decode.optional Decode.double) (some none)
    max := ← Decode.field found "max" (Decode.optional Decode.double) (some none)
    minLength := ← Decode.field found "minLength" (Decode.optional Decode.natural) (some none)
    maxLength := ← Decode.field found "maxLength" (Decode.optional Decode.natural) (some none)
    pattern := ← Decode.field found "pattern" (Decode.optional Decode.text) (some none)
    format := ← Decode.field found "format" (Decode.optional Decode.text) (some none) }

/-- A policy: its name, or an object with `null` under its name. -/
def ClaimPolicy.read : Decode.Reader ClaimPolicy
  | .string name => name.bind ofName?
  | .object [(name, .null)] => name.bind ofName?
  | _ => none

/-- A path step: a natural number is a position, a string is a key. -/
def PathStep.read : Decode.Reader PathStep := fun source =>
  ((Decode.natural source).map PathStep.index).or ((Decode.text source).map PathStep.key)

/-- An issue; the path may be missing or `null`. -/
def Issue.read : Decode.Reader Issue := fun source => do
  let found ← Decode.fields true ["message", "path"] source
  return {
    message := ← Decode.field found "message" Decode.text none
    path := ← Decode.field found "path" (Decode.optional (Decode.listOf PathStep.read))
      (some none) }

end SchemaBridge
