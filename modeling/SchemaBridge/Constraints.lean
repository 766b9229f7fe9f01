import SchemaBridge.Json.Basic

/-!
# Constraints

The flat record of constraints that an adapter reports for one node. Laying an outer record over an
inner one keeps what the outer one leaves open and replaces the rest.

## Main definitions

* `Constraints` : the record.
* `Constraints.coveredBy` : an outer record laid over an inner one.
* `Constraints.toJson` : the record as JSON, without the fields that are not set.

## Main results

* `Constraints.empty_coveredBy` : a record laid over nothing.
-/

namespace SchemaBridge

/-- Constraints of one node. `min` and `max` bound the value, the length or the number of parts,
whichever the shape of the node has. -/
structure Constraints where
  min : Option Binary64
  max : Option Binary64
  minLength : Option Nat
  maxLength : Option Nat
  pattern : Option String
  format : Option String
  deriving DecidableEq

namespace Constraints

/-- The record without any field set. -/
def empty : Constraints := ⟨none, none, none, none, none, none⟩

instance : Inhabited Constraints := ⟨empty⟩

/-- No field is set. -/
def isEmpty (c : Constraints) : Bool :=
  c.min.isNone && c.max.isNone && c.minLength.isNone && c.maxLength.isNone && c.pattern.isNone &&
    c.format.isNone

/-- Every field that the outer record sets replaces that of the inner one. -/
def coveredBy (inner outer : Constraints) : Constraints where
  min := outer.min.or inner.min
  max := outer.max.or inner.max
  minLength := outer.minLength.or inner.minLength
  maxLength := outer.maxLength.or inner.maxLength
  pattern := outer.pattern.or inner.pattern
  format := outer.format.or inner.format

/-- The record as JSON: the fields that are set, in declaration order, the bounds as doubles. -/
def toJson (c : Constraints) : Json :=
  let entry (key : String) (value : Option Json) : Json.Fields :=
    value.toList.map fun v => (key, v)
  .object <|
    entry "min" (c.min.map .ofBinary64) ++
    entry "max" (c.max.map .ofBinary64) ++
    entry "minLength" (c.minLength.map .ofNat) ++
    entry "maxLength" (c.maxLength.map .ofNat) ++
    entry "pattern" (c.pattern.map .string) ++
    entry "format" (c.format.map .string)

/-! ### Laying records over each other -/

theorem eq_empty_of_isEmpty {c : Constraints} (h : c.isEmpty = true) : c = empty := by
  obtain ⟨a, b, d, e, f, g⟩ := c
  simp only [isEmpty, Bool.and_eq_true, Option.isNone_iff_eq_none] at h
  simp [empty, h]

@[simp] theorem empty_coveredBy (c : Constraints) : empty.coveredBy c = c := by
  simp [coveredBy, empty]

end Constraints

end SchemaBridge
