import SchemaBridge.Json.Printer

/-!
# Stock refinements and transformations

Conditions and functions that come with a name, for schemas that are described by data.

## Main definitions

* `Fluent.Condition`, `Fluent.Condition.holds` : conditions on an output.
* `Fluent.Function`, `Fluent.Function.apply` : functions on an output.
-/

namespace SchemaBridge.Fluent

/-- A condition with a name. -/
inductive Condition where
  | always
  | never
  /-- An even integer that fits in 64 bits with a sign. -/
  | even
  /-- A string without spaces. -/
  | noSpaces
  /-- The truth value `true`. -/
  | truthy
  deriving DecidableEq, Repr

namespace Condition

/-- The condition of a name. -/
def ofName? : String → Option Condition
  | "always" => some always
  | "never" => some never
  | "even" => some even
  | "no_spaces" => some noSpaces
  | "truthy" => some truthy
  | _ => none

/-- The condition holds of a value. -/
def holds : Condition → Json → Bool
  | always, _ => true
  | never, _ => false
  | even, .number (.integer i) => i < signedLimit && i % 2 = 0
  | noSpaces, .string s => !s.toList.contains ' '
  | truthy, .bool b => b
  | _, _ => false

end Condition

/-- A function with a name. -/
inductive Function where
  | identity
  /-- Twice the number, as a double; twice zero for anything else. -/
  | double
  /-- An object that holds the value. -/
  | wrap
  | toNull
  /-- The compact text of the value. -/
  | toText
  deriving DecidableEq, Repr

namespace Function

/-- The function of a name. -/
def ofName? : String → Option Function
  | "identity" => some identity
  | "double" => some double
  | "wrap" => some wrap
  | "to_null" => some toNull
  | "to_text" => some toText
  | _ => none

/-- The value of a function. -/
def apply : Function → Json → Json
  | identity, v => v
  | double, v =>
    let x := (v.asNumber?.map Number.toBinary64).getD (.ofNat 0)
    .ofBinary64 (x.mul (.ofNat 2))
  | wrap, v => .object [("wrapped", v)]
  | toNull, _ => .null
  | toText, v => .string v.text

end Function

end SchemaBridge.Fluent
