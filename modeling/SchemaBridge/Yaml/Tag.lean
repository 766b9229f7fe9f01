import SchemaBridge.Text.Hexadecimal
import SchemaBridge.Yaml.Glyph

/-!
# Tags and directives

A tag says what a node is. It is written in full between angle brackets, or as a handle and a
suffix, where the handle stands for the start of the full tag. Directives before a document tell the
version of the format and what further handles stand for.

## Main definitions

* `Yaml.Tag`, `Yaml.tag?` : tags as they are written.
* `Yaml.Directive`, `Yaml.directive?` : directives.
* `Yaml.Handles`, `Yaml.Tag.resolve?` : what handles stand for, and full tags.
-/

namespace SchemaBridge.Yaml

/-! ### Writing tags -/

/-- A tag as it is written; the handle of a full tag is empty. -/
structure Tag where
  handle : List Char
  suffix : List Char
  deriving DecidableEq, Repr

/-- The character may stand in a tag as it is. The comma and the square brackets are reserved for
full tags. -/
def isTagChar (full : Bool) (c : Char) : Bool :=
  isNameChar c || ";/?:@&=+$.!~*'()".toList.contains c || (full && [',', '[', ']'].contains c)

/-- The octets that still belong to a character after one more octet. -/
def octetsAfter? (missing octet : Nat) : Option Nat :=
  if missing = 0 then
    if octet < 0x80 then some 0
    else if 0xC0 ≤ octet && octet < 0xE0 then some 1
    else if 0xE0 ≤ octet && octet < 0xF0 then some 2
    else if 0xF0 ≤ octet && octet < 0xF8 then some 3
    else none
  else if 0x80 ≤ octet && octet < 0xC0 then some (missing - 1)
  else none

/-- Reads the characters of a tag and what is left over. After a percent sign two hexadecimal digits
give an octet; the octets of one character stand together. -/
def tagChars? (full : Bool) : Nat → List Glyph → Option (List Char × List Glyph)
  | missing, [] => if missing = 0 then some ([], []) else none
  | missing, g :: rest =>
    if g.char = '%' then
      match rest with
      | a :: b :: rest =>
        match Hexadecimal.digit? a.char, Hexadecimal.digit? b.char with
        | some high, some low =>
          match octetsAfter? missing (16 * high + low) with
          | some missing =>
            (tagChars? full missing rest).map fun (cs, tail) =>
              (Char.ofNat (16 * high + low) :: cs, tail)
          | none => none
        | _, _ => none
      | _ => none
    else if missing ≠ 0 then none
    else if isTagChar full g.char then
      (tagChars? full 0 rest).map fun (cs, tail) => (g.char :: cs, tail)
    else some ([], g :: rest)

/-- Nothing of a tag counts from a null character on. -/
def upToNull (cs : List Char) : List Char := cs.takeWhile (· ≠ '\x00')

/-- The characters of a tag, of which there must be one at least. -/
def someTagChars? (full : Bool) (gs : List Glyph) : Option (List Char × List Glyph) :=
  match tagChars? full 0 gs with
  | some (c :: cs, tail) => some (upToNull (c :: cs), tail)
  | _ => none

/-- Reads a handle behind its exclamation mark: name characters, and another mark if one follows. -/
def handle (gs : List Glyph) : List Char × List Glyph :=
  let name := chars (gs.takeWhile fun g => isNameChar g.char)
  match gs.drop name.length with
  | g :: rest => if g.char = '!' then ('!' :: name ++ ['!'], rest) else ('!' :: name, g :: rest)
  | [] => ('!' :: name, [])

/-- The handle has a mark at both ends. -/
def isClosedHandle (handle : List Char) : Bool := handle.length > 1 && handle.getLast? = some '!'

/-- Reads a tag behind its exclamation mark. Without a closed handle the tag has the handle `!`; a
tag that is nothing but the mark is itself in full. -/
def tag? (flow : Bool) (gs : List Glyph) : Option (Tag × List Glyph) := do
  let (tag, rest) ← match gs with
    | g :: rest => if g.char = '<' then full? rest else short? gs
    | [] => short? gs
  if endsWord rest || (flow && rest.head?.any fun g => g.char = ',') then return (tag, rest)
  else none
where
  /-- A full tag behind its opening bracket. -/
  full? (gs : List Glyph) : Option (Tag × List Glyph) :=
    match someTagChars? true gs with
    | some (suffix, g :: rest) => if g.char = '>' then some (⟨[], suffix⟩, rest) else none
    | _ => none
  /-- A handle and a suffix. -/
  short? (gs : List Glyph) : Option (Tag × List Glyph) :=
    let (handle, rest) := handle gs
    if isClosedHandle handle then
      (someTagChars? false rest).map fun (suffix, tail) => (⟨handle, suffix⟩, tail)
    else
      (tagChars? false 0 rest).map fun (more, tail) =>
        match upToNull (handle.drop 1 ++ more) with
        | [] => (⟨[], ['!']⟩, tail)
        | suffix => (⟨['!'], suffix⟩, tail)

/-! ### Directives -/

/-- A directive before a document. -/
inductive Directive where
  /-- The version of the format. -/
  | version (major minor : Nat)
  /-- What a handle stands for. -/
  | handle (name start : List Char)
  deriving DecidableEq, Repr

/-- Reads a number of at most nine digits. -/
def versionNumber? (gs : List Glyph) : Option (Nat × List Glyph) :=
  let digits := chars (gs.takeWhile fun g => g.char.isDigit)
  if digits.isEmpty || 9 < digits.length then none
  else some (digits.foldl (fun n c => 10 * n + (c.toNat - '0'.toNat)) 0, gs.drop digits.length)

/-- Glyphs without the blanks at their head. -/
def skipBlanks (gs : List Glyph) : List Glyph := gs.dropWhile fun g => isBlank g.char

/-- Reads what follows the name of a directive. -/
def directiveBody? (name : List Char) (gs : List Glyph) : Option (Directive × List Glyph) :=
  if name = "YAML".toList then do
    let (major, rest) ← versionNumber? (skipBlanks gs)
    match rest with
    | g :: rest =>
      if g.char = '.' then
        (versionNumber? rest).map fun (minor, tail) => (.version major minor, tail)
      else none
    | [] => none
  else if name = "TAG".toList then
    match skipBlanks gs with
    | g :: rest =>
      let (name, rest) := handle rest
      if g.char = '!' && (name = ['!'] || isClosedHandle name) &&
          rest.head?.any fun h => isBlank h.char then
        match someTagChars? true (skipBlanks rest) with
        | some (start, tail) => if endsWord tail then some (.handle name start, tail) else none
        | none => none
      else none
    | [] => none
  else none

/-- Reads a directive behind its percent sign, up to the end of its line. -/
def directive? (gs : List Glyph) : Option (Directive × List Glyph) :=
  let name := chars (gs.takeWhile fun g => isNameChar g.char)
  let rest := gs.drop name.length
  if endsWord rest then
    (directiveBody? name rest).bind fun (directive, rest) =>
      (nextLine? rest).map fun rest => (directive, rest)
  else none

/-! ### Full tags -/

/-- What handles stand for. -/
abbrev Handles := List (List Char × List Char)

/-- The start of the tags of the format itself. -/
def coreTag : List Char := "tag:yaml.org,2002:".toList

/-- The handles that need no directive. -/
def standardHandles : Handles := [(['!'], ['!']), (['!', '!'], coreTag)]

/-- The full tag; there is none if the handle stands for nothing. -/
def Tag.resolve? (handles : Handles) (tag : Tag) : Option (List Char) :=
  if tag.handle.isEmpty then some tag.suffix
  else (handles.lookup tag.handle).map (· ++ tag.suffix)

end SchemaBridge.Yaml
