import SchemaBridge.Options.Document
import SchemaBridge.Yaml.Entries

/-!
# Options in YAML text

Options in YAML text are a flat mapping. What a scalar means depends on the option that it is for:
any scalar is a text; numbers, truth values and nothing are plain words. A text without entries sets
nothing.

## Main definitions

* `Yaml.Scalar.optionalText?`, `Yaml.Scalar.truth?`, `Yaml.Scalar.natural?` : what scalars mean.
* `DocumentOptions.ofYamlText` : the options of a text.
-/

namespace SchemaBridge

namespace Yaml.Scalar

/-- Any scalar is a text. -/
def content (s : Scalar) : String := String.ofList s.text

/-- The scalar can be a word with a meaning of its own: it is plain, or a literal block with the tag
of that meaning. -/
def isWord (kind : String) (s : Scalar) : Bool :=
  s.style = .plain || (s.style = .literal && s.tag = some (coreTag ++ kind.toList))

/-- The words for nothing. -/
def isNullWord (s : Scalar) : Bool :=
  ["~", "null", "Null", "NULL"].any fun word => s.text = word.toList

/-- A text that may be left out: nothing is a plain scalar that is empty or a word for it. With the
tag of nothing a plain scalar must be such a word, and with any other tag it is a text. -/
def optionalText? (s : Scalar) : Option (Option String) :=
  if s.style ≠ .plain then some s.content
  else
    match s.tag with
    | none => some (if s.text.isEmpty || s.isNullWord then none else some s.content)
    | some tag =>
      if tag = coreTag ++ "null".toList then if s.isNullWord then some none else none
      else some s.content

/-- A truth value. -/
def truth? (s : Scalar) : Option Bool :=
  if !s.isWord "bool" then none
  else if ["true", "True", "TRUE"].any fun word => s.text = word.toList then some true
  else if ["false", "False", "FALSE"].any fun word => s.text = word.toList then some false
  else none

/-- The base of a number and its digits. Zeros do not stand in front of other decimal digits. -/
def numeral? : List Char → Option (Nat × List Char)
  | '0' :: 'x' :: digits => some (16, digits)
  | '0' :: 'o' :: digits => some (8, digits)
  | '0' :: 'b' :: digits => some (2, digits)
  | '0' :: _ :: _ => none
  | digits => some (10, digits)

/-- The number of digits in a base up to sixteen; there is one digit at least. -/
def ofDigits? (base : Nat) (digits : List Char) : Option Nat :=
  if digits.isEmpty then none
  else digits.foldlM (fun n c => (Hexadecimal.digit? c).bind fun d =>
    if d < base then some (base * n + d) else none) 0

/-- The characters without a plus at their head. -/
def dropPlus : List Char → List Char
  | '+' :: rest => rest
  | cs => cs

/-- A natural number of 64 bits. -/
def natural? (s : Scalar) : Option Nat :=
  if !s.isWord "int" then none
  else (numeral? (dropPlus s.text)).bind fun (base, digits) =>
    (ofDigits? base digits).filter fun n => n < wordLimit

end Yaml.Scalar

namespace DocumentOptions

/-- Adds an entry to those that have been read: its key is the name of an option that has not been
set before. -/
def addEntry (found : Table String Yaml.Scalar) (entry : Yaml.Scalar × Yaml.Scalar) :
    Option (Table String Yaml.Scalar) :=
  let name := entry.1.content
  if names.contains name && !Table.has found name then some (Table.put found name entry.2)
  else none

/-- The value of an option, or what stands in for it. -/
def entryOr {α : Type} (found : Table String Yaml.Scalar) (name : String)
    (reader : Yaml.Scalar → Option α) (missing : α) : Option α :=
  (Table.get? found name).elim (some missing) reader

/-- The options of the entries of a mapping. -/
def ofEntries (entries : List (Yaml.Scalar × Yaml.Scalar)) : Option DocumentOptions := do
  let standard : DocumentOptions := {}
  let found ← entries.foldlM addEntry []
  return {
    schemaUri := ← entryOr found "schema_uri" Yaml.Scalar.optionalText? standard.schemaUri
    defStem := ← entryOr found "def_prefix" (some ·.content) standard.defStem
    nameDefsFromTitle := ← entryOr found "name_defs_from_title" Yaml.Scalar.truth?
      standard.nameDefsFromTitle
    maxDepth := ← entryOr found "max_depth" Yaml.Scalar.natural? standard.maxDepth
    dateFormat := ← entryOr found "date_format" (some ·.content) standard.dateFormat }

/-- The options of a YAML text. -/
def ofYamlText (text : String) : Except OptionsError DocumentOptions :=
  match (Yaml.entries? text).bind ofEntries with
  | some options => .ok options
  | none => .error .yaml

end DocumentOptions

end SchemaBridge
