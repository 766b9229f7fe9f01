import SchemaBridge.Json.Numeral
import SchemaBridge.Text.Hexadecimal

/-!
# Reading JSON text

A text is first read into a tree that keeps everything that the grammar lets through: keys that
occur twice, numerals out of range, escapes that name half a character. What such parts mean is
decided afterwards, by the one who asks for a value: a part that nobody asks for may hold any of
them.

## Main definitions

* `Source` : the tree of a text.
* `Source.read?` : the tree of a whole text.
* `Source.toJson?` : the value of a tree, the last of several entries with one key winning.
-/

namespace SchemaBridge

/-- The tree of a JSON text. A string whose escapes do not join to characters has no text. -/
inductive Source where
  | null
  | bool (value : Bool)
  | numeral (value : Numeral)
  | string (text : Option String)
  | array (items : List Source)
  | object (fields : List (Option String × Source))

namespace Source

instance : Inhabited Source := ⟨null⟩

/-! ### Strings -/

/-- A part of a string: a character, or a 16-bit code unit given by its number. -/
inductive Piece where
  | char (c : Char)
  | unit (n : Nat)

/-- The code unit of four hexadecimal digits. -/
def unit? (a b c d : Char) : Option Nat := do
  let a ← Hexadecimal.digit? a
  let b ← Hexadecimal.digit? b
  let c ← Hexadecimal.digit? c
  let d ← Hexadecimal.digit? d
  return ((a * 16 + b) * 16 + c) * 16 + d

/-- The character that a one-letter escape stands for. -/
def unescape? : Char → Option Char
  | '"' => some '"'
  | '\\' => some '\\'
  | '/' => some '/'
  | 'b' => some '\x08'
  | 'f' => some '\x0c'
  | 'n' => some '\n'
  | 'r' => some '\r'
  | 't' => some '\t'
  | _ => none

/-- The parts of a string up to its closing quote, and what follows it. -/
def readPieces? : List Char → Option (List Piece × List Char)
  | [] => none
  | '"' :: rest => some ([], rest)
  | '\\' :: 'u' :: a :: b :: c :: d :: rest => do
    let n ← unit? a b c d
    let (pieces, tail) ← readPieces? rest
    return (.unit n :: pieces, tail)
  | '\\' :: e :: rest => do
    let c ← unescape? e
    let (pieces, tail) ← readPieces? rest
    return (.char c :: pieces, tail)
  | c :: rest =>
    if c.toNat < 0x20 then none
    else do
      let (pieces, tail) ← readPieces? rest
      return (.char c :: pieces, tail)

/-- The code unit is the first half of a character. -/
def isHigh (n : Nat) : Bool := 0xD800 ≤ n && n < 0xDC00

/-- The code unit is the second half of a character. -/
def isLow (n : Nat) : Bool := 0xDC00 ≤ n && n < 0xE000

/-- The characters of a list of parts; a half of a character must stand beside its other half. -/
def join? : List Piece → Option (List Char)
  | [] => some []
  | .char c :: rest => (join? rest).map (c :: ·)
  | .unit n :: rest =>
    if isHigh n then
      match rest with
      | .unit m :: tail =>
        if isLow m then
          (join? tail).map (Char.ofNat (0x10000 + (n - 0xD800) * 0x400 + (m - 0xDC00)) :: ·)
        else none
      | _ => none
    else if isLow n then none
    else (join? rest).map (Char.ofNat n :: ·)

/-- The string after an opening quote. -/
def readString? (cs : List Char) : Option (Option String × List Char) :=
  (readPieces? cs).map fun (pieces, rest) => ((join? pieces).map String.ofList, rest)

/-! ### Values -/

/-- The character is a blank. -/
def isBlank (c : Char) : Bool := c = ' ' || c = '\n' || c = '\t' || c = '\r'

/-- The text without the blanks at its head. -/
def skip (cs : List Char) : List Char := cs.dropWhile isBlank

/-- A key and the colon after it. -/
def readKey? (cs : List Char) : Option (Option String × List Char) :=
  match skip cs with
  | '"' :: rest => do
    let (key, rest) ← readString? rest
    match skip rest with
    | ':' :: tail => some (key, tail)
    | _ => none
  | _ => none

mutual

/-- The value at the head of a text. The first argument bounds the number of nested steps. -/
def readValue? : Nat → List Char → Option (Source × List Char)
  | 0, _ => none
  | steps + 1, cs =>
    match skip cs with
    | 'n' :: 'u' :: 'l' :: 'l' :: rest => some (null, rest)
    | 't' :: 'r' :: 'u' :: 'e' :: rest => some (bool true, rest)
    | 'f' :: 'a' :: 'l' :: 's' :: 'e' :: rest => some (bool false, rest)
    | '"' :: rest => (readString? rest).map fun (s, tail) => (string s, tail)
    | '[' :: rest =>
      match skip rest with
      | ']' :: tail => some (array [], tail)
      | _ => (readItems? steps rest).map fun (items, tail) => (array items, tail)
    | '\x7b' :: rest =>
      match skip rest with
      | '\x7d' :: tail => some (object [], tail)
      | _ => (readFields? steps rest).map fun (fields, tail) => (object fields, tail)
    | cs => (Numeral.read? cs).map fun (n, tail) => (numeral n, tail)

/-- The items of an array up to its closing bracket. -/
def readItems? : Nat → List Char → Option (List Source × List Char)
  | 0, _ => none
  | steps + 1, cs => do
    let (item, rest) ← readValue? steps cs
    match skip rest with
    | ',' :: tail => do
      let (items, tail) ← readItems? steps tail
      return (item :: items, tail)
    | ']' :: tail => some ([item], tail)
    | _ => none

/-- The entries of an object up to its closing brace. -/
def readFields? : Nat → List Char → Option (List (Option String × Source) × List Char)
  | 0, _ => none
  | steps + 1, cs => do
    let (key, rest) ← readKey? cs
    let (value, rest) ← readValue? steps rest
    match skip rest with
    | ',' :: tail => do
      let (fields, tail) ← readFields? steps tail
      return ((key, value) :: fields, tail)
    | '\x7d' :: tail => some ([(key, value)], tail)
    | _ => none

end

/-- The tree of a whole text. Every step takes a character at least, so the length of the text
bounds the steps. -/
def read? (text : String) : Option Source :=
  let cs := text.toList
  match readValue? (2 * cs.length + 2) cs with
  | some (source, rest) => if (skip rest).isEmpty then some source else none
  | none => none

/-! ### Meaning -/

mutual

/-- The value of a tree. Of several entries with one key the last value stands, at the place of the
first. -/
def toJson? : Source → Option Json
  | null => some .null
  | bool b => some (.bool b)
  | numeral n => n.value?.map .number
  | string s => s.map .string
  | array items => (itemsToJson? items).map .array
  | object fields => (fieldsToJson? fields []).map .object

/-- The values of items. -/
def itemsToJson? : List Source → Option (List Json)
  | [] => some []
  | item :: rest => do
    let j ← toJson? item
    let js ← itemsToJson? rest
    return j :: js

/-- The entries put one after the other into a table. -/
def fieldsToJson? : List (Option String × Source) → Json.Fields → Option Json.Fields
  | [], table => some table
  | (key, value) :: rest, table => do
    let k ← key
    let j ← toJson? value
    fieldsToJson? rest (Table.put table k j)

end

end Source

/-- The value of a whole text. -/
def Json.parse? (text : String) : Option Json := (Source.read? text).bind Source.toJson?

end SchemaBridge
