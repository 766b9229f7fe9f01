/-!
# Characters with their places

In YAML the column of a character decides what it belongs to, and the line decides what can be a
key. A text is therefore read as a list of glyphs: its characters, each with the line and the column
in which it stands.

## Main definitions

* `Yaml.isBlank`, `Yaml.isBreak` : the characters between words.
* `Yaml.Glyph` : a character with its place.
* `Yaml.glyphs?` : the glyphs of a text.
* `Yaml.lines` : glyphs by lines.
* `Yaml.isMarker` : the lines that separate documents.
-/

namespace SchemaBridge.Yaml

/-! ### Characters -/

/-- A text may hold the character: it is no control other than tab and the line breaks. -/
def isPermitted (c : Char) : Bool :=
  c = '\t' || c = '\n' || c = '\r' || c = '\u0085' || (' ' ≤ c && c ≤ '~') ||
    ('\u00a0' ≤ c && c ≠ '\ufffe' && c ≠ '\uffff')

/-- The character is a blank inside a line. -/
def isBlank (c : Char) : Bool := c = ' ' || c = '\t'

/-- The character ends a line. -/
def isBreak (c : Char) : Bool := c = '\n' || c = '\u2028' || c = '\u2029'

/-- The character stands between words. -/
def isGap (c : Char) : Bool := isBlank c || isBreak c

/-- The character belongs to the names of anchors, tags and directives. -/
def isNameChar (c : Char) : Bool := c.isAlphanum || c = '_' || c = '-'

/-- The text with one character for the line breaks that are written in several ways; the
separators of lines and of paragraphs stay what they are. -/
def unifyBreaks : List Char → List Char
  | [] => []
  | '\r' :: '\n' :: rest => '\n' :: unifyBreaks rest
  | c :: rest => (if c = '\r' || c = '\u0085' then '\n' else c) :: unifyBreaks rest

/-! ### Glyphs -/

/-- A character with the line and the column in which it stands, both counted from zero. -/
structure Glyph where
  char : Char
  line : Nat
  column : Nat
  deriving DecidableEq, Repr

/-- The characters with their places, when the first one stands at the given place. -/
def place (line column : Nat) : List Char → List Glyph
  | [] => []
  | c :: rest =>
    ⟨c, line, column⟩ :: if isBreak c then place (line + 1) 0 rest else place line (column + 1) rest

/-- The glyphs of a text, if it holds permitted characters only. -/
def glyphs? (text : String) : Option (List Glyph) :=
  if text.toList.all isPermitted then some (place 0 0 (unifyBreaks text.toList)) else none

/-- The characters of glyphs. -/
def chars (gs : List Glyph) : List Char := gs.map Glyph.char

/-- A word that stands before these glyphs ends there. -/
def endsWord : List Glyph → Bool
  | [] => true
  | g :: _ => isGap g.char

/-- Three times the character and nothing more, at the start of a line. -/
def isMarker (c : Char) : List Glyph → Bool
  | x :: y :: z :: rest =>
    x.column = 0 && x.char = c && y.char = c && z.char = c && endsWord rest
  | _ => false

/-- A document ends before these glyphs. -/
def isBoundary (gs : List Glyph) : Bool := isMarker '-' gs || isMarker '.' gs

/-! ### Lines -/

/-- The lines of glyphs, each with the break at its end. -/
def lines : List Glyph → List (List Glyph)
  | [] => []
  | g :: rest =>
    if isBreak g.char then [g] :: lines rest
    else match lines rest with
      | [] => [[g]]
      | line :: others => (g :: line) :: others

/-- What remains of a line after blanks and a comment: the glyphs from the next line on. There is
nothing if anything else stands in the line. -/
def nextLine? (gs : List Glyph) : Option (List Glyph) :=
  match gs.dropWhile fun g => isBlank g.char with
  | [] => some []
  | g :: rest =>
    if isBreak g.char then some rest
    else if g.char = '#' then some ((rest.dropWhile fun h => !isBreak h.char).drop 1)
    else none

end SchemaBridge.Yaml
