import SchemaBridge.Json.Source

/-!
# Typed reading

Readers take a value of a fixed type out of the tree of a JSON text. A record may be written as an
object or as the array of its fields in their order, of which the last ones may be missing; a field
that is written twice is an error, and a field that nobody asks for may hold anything.

## Main definitions

* `Decode.Reader` : readers.
* `Decode.text`, `Decode.truth`, `Decode.natural`, `Decode.double` : scalars.
* `Decode.optional`, `Decode.listOf` : values that may be `null`, and arrays.
* `Decode.fields` : the fields of a record that are written.
* `Decode.field` : the value of a field, or what stands in for it.
-/

namespace SchemaBridge.Decode

/-- A reader of values; it answers nothing for a tree of another form. -/
abbrev Reader (α : Type) := Source → Option α

variable {α : Type}

/-- A string. -/
def text : Reader String
  | .string s => s
  | _ => none

/-- A boolean. -/
def truth : Reader Bool
  | .bool b => some b
  | _ => none

/-- A natural number that fits in 64 bits, written without fraction and exponent. -/
def natural : Reader Nat
  | .numeral n => n.toInt?.bind fun i => if 0 ≤ i then some i.toNat else none
  | _ => none

/-- A double: any number. -/
def double : Reader Binary64
  | .numeral n => n.value?.map Number.toBinary64
  | _ => none

/-- A value, or `null`. -/
def optional (reader : Reader α) : Reader (Option α)
  | .null => some none
  | source => (reader source).map some

/-- An array of values. -/
def listOf (reader : Reader α) : Reader (List α)
  | .array items => items.mapM reader
  | _ => none

/-- Adds an entry of an object to the fields that have been read. Only a lenient reader passes over
names that are not asked for. -/
def addField (lenient : Bool) (names : List String) (found : Table String Source)
    (entry : Option String × Source) : Option (Table String Source) :=
  match entry.1 with
  | none => none
  | some name =>
    if names.contains name then
      if Table.has found name then none else some (Table.put found name entry.2)
    else if lenient then some found
    else none

/-- The fields of a record of these names that are written. -/
def fields (lenient : Bool) (names : List String) : Reader (Table String Source)
  | .object entries => entries.foldlM (addField lenient names) []
  | .array items => if items.length ≤ names.length then some (names.zip items) else none
  | _ => none

/-- The value of a field; `missing` stands in for one that is not written. -/
def field (found : Table String Source) (name : String) (reader : Reader α) (missing : Option α) :
    Option α :=
  match Table.get? found name with
  | some source => reader source
  | none => missing

end SchemaBridge.Decode
