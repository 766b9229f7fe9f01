import SchemaBridge.Text.Visible

/-!
# Quoted texts in diagnostics

Diagnostics show a text between double quotes, with the quote, the backslash and everything without
a glyph of its own escaped, and lists of texts between brackets.

## Main definitions

* `Quoted.escape`, `Quoted.text` : one character, and a whole text, as diagnostics show them.
* `Quoted.list` : a list of texts.
* `Quoted.option` : a text that may be absent.
-/

namespace SchemaBridge.Quoted

/-- A character as diagnostics show it. -/
def escape (c : Char) : List Char :=
  if c = '\x00' then ['\\', '0']
  else if c = '\t' then ['\\', 't']
  else if c = '\r' then ['\\', 'r']
  else if c = '\n' then ['\\', 'n']
  else if c = '\\' then ['\\', '\\']
  else if c = '"' then ['\\', '"']
  else if isVisible c then [c]
  else ['\\', 'u', '\x7b'] ++ Nat.toDigits 16 c.toNat ++ ['\x7d']

/-- A text as diagnostics show it. -/
def text (s : String) : String := String.ofList ('"' :: s.toList.flatMap escape ++ ['"'])

/-- A list of texts as diagnostics show it. -/
def list (texts : List String) : String := "[" ++ ", ".intercalate (texts.map text) ++ "]"

/-- A text that may be absent, as diagnostics show it. -/
def option : Option String → String
  | none => "None"
  | some s => "Some(" ++ text s ++ ")"

end SchemaBridge.Quoted
