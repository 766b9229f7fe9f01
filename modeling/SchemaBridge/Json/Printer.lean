import SchemaBridge.Json.Basic
import SchemaBridge.Number.Style

/-!
# Compact JSON text

The text of a value without blanks: entries in the order of the object, numbers in the document
style, and in strings only the quote, the backslash and the control characters escaped.

## Main definitions

* `Json.escape`, `Json.quote` : one character, and a whole string, as they are written.
* `Json.chars`, `Json.text` : the compact text of a value.
-/

namespace SchemaBridge

namespace Json

/-- The lower-case hexadecimal digit of a number below sixteen. -/
def hexDigit (n : Nat) : Char := Nat.digitChar n

/-- A character as it is written inside a string. -/
def escape (c : Char) : List Char :=
  if c = '"' then ['\\', '"']
  else if c = '\\' then ['\\', '\\']
  else if c = '\x08' then ['\\', 'b']
  else if c = '\x0c' then ['\\', 'f']
  else if c = '\n' then ['\\', 'n']
  else if c = '\r' then ['\\', 'r']
  else if c = '\t' then ['\\', 't']
  else if c.toNat < 0x20 then
    ['\\', 'u', '0', '0', hexDigit (c.toNat / 16), hexDigit (c.toNat % 16)]
  else [c]

/-- A string as it is written: escaped, between quotes. -/
def quote (cs : List Char) : List Char := '"' :: cs.flatMap escape ++ ['"']

/-- The digits of an integer, with its sign if it is negative. -/
def integerChars (i : Int) : List Char :=
  (if i < 0 then ['-'] else []) ++ Decimal.digits i.natAbs

/-- The text of a number. -/
def numberChars : Number → List Char
  | .integer i => integerChars i
  | .float x => NumberStyle.document.write x

mutual

/-- The compact text of a value. -/
def chars : Json → List Char
  | null => "null".toList
  | bool b => if b then "true".toList else "false".toList
  | number n => numberChars n
  | string s => quote s.toList
  | array items => '[' :: itemChars items ++ [']']
  | object fields => '\x7b' :: fieldChars fields ++ ['\x7d']

/-- The texts of items, with commas between them. -/
def itemChars : List Json → List Char
  | [] => []
  | [j] => chars j
  | j :: rest => chars j ++ ',' :: itemChars rest

/-- The texts of entries, with commas between them. -/
def fieldChars : List (String × Json) → List Char
  | [] => []
  | [(key, j)] => quote key.toList ++ ':' :: chars j
  | (key, j) :: rest => quote key.toList ++ ':' :: chars j ++ ',' :: fieldChars rest

end

/-- The compact text of a value. -/
def text (j : Json) : String := String.ofList j.chars

end Json

end SchemaBridge
