import SchemaBridge.Options.Basic
import SchemaBridge.Options.Error
import SchemaBridge.Text.Blank
import SchemaBridge.Text.Quoted

/-!
# Options from variables

Options can be set by variables of an environment. A variable that is not set leaves the default;
the variables are looked at in a fixed order, and the first one that cannot be used is the error.

## Main definitions

* `Variables.natural` : a natural number of 64 bits.
* `DocumentOptions.ofVariables` : the options that an environment sets.
-/

namespace SchemaBridge

namespace Variables

/-- The digits are appended to a number, as long as it fits in 64 bits. -/
def appendDigits : Nat → List Char → Except String Nat
  | n, [] => .ok n
  | n, c :: rest =>
    if !c.isDigit then .error "invalid digit found in string"
    else
      let next := 10 * n + (c.toNat - '0'.toNat)
      if wordLimit ≤ next then .error "number too large to fit in target type"
      else appendDigits next rest

/-- A natural number of 64 bits: digits, perhaps after a plus. -/
def natural : List Char → Except String Nat
  | [] => .error "cannot parse integer from empty string"
  | ['+'] => .error "invalid digit found in string"
  | '+' :: digits => appendDigits 0 digits
  | digits => appendDigits 0 digits

/-- A truth value. -/
def truth (cs : List Char) : Except String Bool :=
  if cs = "true".toList then .ok true
  else if cs = "false".toList then .ok false
  else .error "provided string was not `true` or `false`"

/-- Reads the value of a variable, without the blanks around it. The reason of a failure shows the
value as it is set. -/
def value {α : Type} (name raw : String) (reader : List Char → Except String α) :
    Except OptionsError α :=
  (reader (Blank.trim raw.toList)).mapError fun reason =>
    .variable name (Quoted.text raw ++ ": " ++ reason)

/-- The variable of the `$schema`. -/
def schemaUri : String := "POLYSCHEMA_SCHEMA_URI"

/-- The variable of the start of definition names. -/
def defStem : String := "POLYSCHEMA_DEF_PREFIX"

/-- The variable of the depth limit. -/
def maxDepth : String := "POLYSCHEMA_MAX_DEPTH"

/-- The variable of the format of dates. -/
def dateFormat : String := "POLYSCHEMA_DATE_FORMAT"

/-- The variable that decides whether definitions are named after titles. -/
def nameDefsFromTitle : String := "POLYSCHEMA_NAME_DEFS_FROM_TITLE"

/-- The start of definition names must not be empty. -/
def stem (raw : String) : Except OptionsError String :=
  if raw.isEmpty then .error (.variable defStem "prefix must not be empty") else .ok raw

end Variables

namespace DocumentOptions

/-- A field that a variable sets, or its default. -/
def ofVariable {α : Type} (raw : Option String) (standard : α)
    (reader : String → Except OptionsError α) : Except OptionsError α :=
  match raw with
  | some raw => reader raw
  | none => .ok standard

/-- The options that an environment sets. An empty `$schema` is none. -/
def ofVariables (env : String → Option String) : Except OptionsError DocumentOptions := do
  let standard : DocumentOptions := {}
  let defStem ← ofVariable (env Variables.defStem) standard.defStem Variables.stem
  let maxDepth ← ofVariable (env Variables.maxDepth) standard.maxDepth fun raw =>
    Variables.value Variables.maxDepth raw Variables.natural
  let nameDefsFromTitle ←
    ofVariable (env Variables.nameDefsFromTitle) standard.nameDefsFromTitle fun raw =>
      Variables.value Variables.nameDefsFromTitle raw Variables.truth
  return {
    schemaUri := (env Variables.schemaUri).filter fun uri => !uri.isEmpty
    defStem
    nameDefsFromTitle
    maxDepth
    dateFormat := (env Variables.dateFormat).getD standard.dateFormat }

end DocumentOptions

end SchemaBridge
