import SchemaBridge.Text.Hexadecimal
import SchemaBridge.Yaml.Glyph

/-!
# Scalars

A YAML scalar is a text in one of five styles. A plain or a quoted one may run over several lines,
whose breaks are folded; a block is made of all the lines that are indented deep enough, and a
header says how its last line breaks are treated.

## Main definitions

* `Yaml.Style`, `Yaml.Scalar` : scalars.
* `Yaml.fold` : what the blanks and breaks between two words become.
* `Yaml.plain?`, `Yaml.quoted?`, `Yaml.block?` : reading a scalar; what follows it is left over.
-/

namespace SchemaBridge.Yaml

/-- The ways to write a scalar. -/
inductive Style where
  | plain
  | quoted
  | literal
  | folded
  deriving DecidableEq, Repr

/-- A scalar: its text, how it is written, and its tag, if it has one. -/
structure Scalar where
  text : List Char
  style : Style
  tag : Option (List Char)
  deriving DecidableEq, Repr

/-! ### Folding -/

/-- What the blanks and breaks between two words become. Without a break they are kept. Else one
line feed becomes a space, and the first of several is dropped; breaks that are no line feeds are
kept. -/
def fold (gap : List Char) : List Char :=
  if gap.any isBreak then
    match gap.filter isBreak with
    | ['\n'] => [' ']
    | '\n' :: breaks => breaks
    | breaks => breaks
  else gap

/-! ### Plain scalars -/

/-- The characters that end a plain scalar between braces. -/
def isFlowIndicator (c : Char) : Bool := [',', '[', ']', '\x7b', '\x7d'].contains c

/-- The colon may not stand before these glyphs, between braces. -/
def isStrayColon (rest : List Glyph) : Bool :=
  rest.head?.any fun g => isFlowIndicator g.char || g.char = '?'

/-- Reads a plain scalar, after these blanks and breaks: its text, whether it is followed by a line
break, and what is left over. The scalar ends before a colon that ends a word, before a comment,
where a document ends, and at a line that is indented less than the margin; between braces
indentation does not matter, and the indicators end it, too. -/
def plain? (flow : Bool) (margin : Nat) :
    List Char → List Glyph → Option (List Char × Bool × List Glyph)
  | gap, [] => some ([], gap.any isBreak, [])
  | gap, g :: rest =>
    if isGap g.char then
      if g.char = '\t' && gap.any isBreak && g.column < margin then none
      else plain? flow margin (gap ++ [g.char]) rest
    else if !gap.isEmpty &&
        ((!flow && g.column < margin) || isBoundary (g :: rest) || g.char = '#') then
      some ([], gap.any isBreak, g :: rest)
    else if flow && g.char = ':' && isStrayColon rest then none
    else if (g.char = ':' && endsWord rest) || (flow && isFlowIndicator g.char) then
      some ([], gap.any isBreak, g :: rest)
    else
      (plain? flow margin [] rest).map fun (text, broken, tail) =>
        (fold gap ++ g.char :: text, broken, tail)

/-! ### Quoted scalars -/

/-- The character that an escape of one letter stands for. -/
def escaped? : Char → Option Char
  | '0' => some '\x00'
  | 'a' => some '\x07'
  | 'b' => some '\x08'
  | 't' => some '\t'
  | '\t' => some '\t'
  | 'n' => some '\n'
  | 'v' => some '\x0b'
  | 'f' => some '\x0c'
  | 'r' => some '\r'
  | 'e' => some '\x1b'
  | ' ' => some ' '
  | '"' => some '"'
  | '/' => some '/'
  | '\\' => some '\\'
  | 'N' => some '\u0085'
  | '_' => some '\u00a0'
  | 'L' => some '\u2028'
  | 'P' => some '\u2029'
  | _ => none

/-- The number of hexadecimal digits after an escape letter. -/
def escapeWidth? : Char → Option Nat
  | 'x' => some 2
  | 'u' => some 4
  | 'U' => some 8
  | _ => none

/-- The character of a number, if it has one. -/
def charOfNumber? (n : Nat) : Option Char := if n.isValidChar then some (Char.ofNat n) else none

/-- Where a reader of a quoted scalar stands. -/
inductive Quoting where
  /-- After these blanks and breaks. -/
  | gap (chars : List Char)
  /-- After a line break that is escaped, and these breaks. -/
  | joined (breaks : List Char)
  /-- After a backslash. -/
  | escape
  /-- Inside an escape: so many digits are missing, and the others make this number. -/
  | digits (missing number : Nat)
  /-- After a quote that closes the scalar unless another one follows. -/
  | closing

namespace Quoting

/-- The place after one more blank or break. -/
def push (c : Char) : Quoting → Quoting
  | gap chars => gap (chars ++ [c])
  | joined breaks => joined (if isBreak c then breaks ++ [c] else breaks)
  | q => q

/-- The text that the blanks and breaks of a place become. -/
def text : Quoting → List Char
  | gap chars => fold chars
  | joined breaks => breaks
  | _ => []

end Quoting

/-- Reads a scalar in double or in single quotes from a place behind the opening quote on: its text,
and what is left over. -/
def quoted? (double : Bool) : Quoting → List Glyph → Option (List Char × List Glyph)
  | .closing, [] => some ([], [])
  | _, [] => none
  | .closing, g :: rest =>
    if g.char = '\'' then
      (quoted? double (.gap []) rest).map fun (text, tail) => ('\'' :: text, tail)
    else some ([], g :: rest)
  | .escape, g :: rest =>
    if isBreak g.char then quoted? double (.joined []) rest
    else match escapeWidth? g.char with
      | some width => quoted? double (.digits width 0) rest
      | none =>
        match escaped? g.char with
        | some c => (quoted? double (.gap []) rest).map fun (text, tail) => (c :: text, tail)
        | none => none
  | .digits missing number, g :: rest =>
    match Hexadecimal.digit? g.char with
    | none => none
    | some d =>
      if 1 < missing then quoted? double (.digits (missing - 1) (16 * number + d)) rest
      else match charOfNumber? (16 * number + d) with
        | some c => (quoted? double (.gap []) rest).map fun (text, tail) => (c :: text, tail)
        | none => none
  | place, g :: rest =>
    if isGap g.char then quoted? double (place.push g.char) rest
    else if isBoundary (g :: rest) then none
    else if double && g.char = '"' then some (place.text, rest)
    else
      let next :=
        if double && g.char = '\\' then quoted? double .escape rest
        else if !double && g.char = '\'' then quoted? double .closing rest
        else (quoted? double (.gap []) rest).map fun (text, tail) => (g.char :: text, tail)
      next.map fun (text, tail) => (place.text ++ text, tail)

/-! ### Blocks -/

/-- What happens to the line breaks at the end of a block. -/
inductive Chomping where
  /-- All are dropped. -/
  | strip
  /-- The first is kept. -/
  | clip
  /-- All are kept. -/
  | keep
  deriving DecidableEq, Repr

/-- The first line of a block: the treatment of its end, and its indentation, if that is given. -/
structure BlockHeader where
  chomping : Chomping
  indentation : Option Nat
  deriving DecidableEq, Repr

/-- The treatment that a sign stands for. -/
def chomping? : Char → Option Chomping
  | '-' => some .strip
  | '+' => some .keep
  | _ => none

/-- Reads the first line of a block: a sign and a digit that is not zero, both optional and in
either order. -/
def blockHeader? (gs : List Glyph) : Option (BlockHeader × List Glyph) :=
  let (before, gs) := sign gs
  let (indentation, gs) := digit gs
  let (chomping, gs) := if before.isSome then (before, gs) else sign gs
  if indentation = some 0 then none
  else (nextLine? gs).map fun gs => (⟨chomping.getD .clip, indentation⟩, gs)
where
  /-- A sign, if there is one. -/
  sign (gs : List Glyph) : Option Chomping × List Glyph :=
    match gs.head?.bind fun g => chomping? g.char with
    | some chomping => (some chomping, gs.drop 1)
    | none => (none, gs)
  /-- A digit, if there is one. -/
  digit : List Glyph → Option Nat × List Glyph
    | g :: rest =>
      if g.char.isDigit then (some (g.char.toNat - '0'.toNat), rest) else (none, g :: rest)
    | [] => (none, [])

/-- The number of spaces at the start of a line. -/
def spaces (line : List Glyph) : Nat := (line.takeWhile fun g => g.char = ' ').length

/-- The indentation of a block that does not say it: that of the first line with a text, or of an
empty line before it if that has more spaces, but never less than the least. -/
def blockIndentation? (least : Nat) : List (List Glyph) → Option Nat
  | [] => some least
  | line :: rest =>
    let least := max least (spaces line)
    match line.drop (spaces line) with
    | [] => some least
    | g :: _ =>
      if g.char = '\t' then none
      else if isBreak g.char then blockIndentation? least rest
      else some least

/-- The part of a block that has been read. -/
structure BlockText where
  /-- The text up to the last line that has one. -/
  text : List Char := []
  /-- The break of that line. -/
  lineBreak : List Char := []
  /-- The breaks of the empty lines after it. -/
  emptyBreaks : List Char := []
  /-- That line starts with a blank. -/
  indented : Bool := false

namespace BlockText

/-- The block with one more line; the line breaks before it are folded unless one of the lines at
them starts with a blank. -/
def addLine (block : BlockText) (folding : Bool) (line : List Glyph) : BlockText :=
  let indented := line.head?.any fun g => isBlank g.char
  let folded := folding && block.lineBreak = ['\n'] && !block.indented && !indented
  let gap :=
    if folded then (if block.emptyBreaks.isEmpty then [' '] else block.emptyBreaks)
    else block.lineBreak ++ block.emptyBreaks
  { text := block.text ++ gap ++ (chars line).filter fun c => !isBreak c
    lineBreak := (chars line).filter isBreak
    indented }

/-- The whole text of a block. -/
def finish (block : BlockText) : Chomping → List Char
  | .strip => block.text
  | .clip => block.text ++ block.lineBreak
  | .keep => block.text ++ block.lineBreak ++ block.emptyBreaks

end BlockText

/-- Reads the lines of a block, and leaves the first one over that is indented less. -/
def blockLines? (folding : Bool) (indentation : Nat) :
    BlockText → List (List Glyph) → Option (BlockText × List (List Glyph))
  | block, [] => some (block, [])
  | block, line :: rest =>
    match line.drop (min (spaces line) indentation) with
    | [] => some (block, [])
    | g :: body =>
      if isBreak g.char then
        blockLines? folding indentation
          { block with emptyBreaks := block.emptyBreaks ++ [g.char] } rest
      else if indentation ≤ spaces line then
        blockLines? folding indentation (block.addLine folding (g :: body)) rest
      else if g.char = '\t' then none
      else some (block, line :: rest)

/-- Reads a block behind its indicator: its text, and what is left over. The indentation that its
header gives is counted from that of the mapping around it, if there is one. -/
def block? (folding : Bool) (around : Option Nat) (gs : List Glyph) :
    Option (List Char × List Glyph) := do
  let (header, gs) ← blockHeader? gs
  let body := lines gs
  let indentation ← match header.indentation with
    | some n => some (around.getD 0 + n)
    | none => blockIndentation? (max 1 (around.elim 0 (· + 1))) body
  let (block, rest) ← blockLines? folding indentation {} body
  return (block.finish header.chomping, rest.flatten)

end SchemaBridge.Yaml
