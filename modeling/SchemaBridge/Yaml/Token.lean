import SchemaBridge.Yaml.Scalar
import SchemaBridge.Yaml.Tag

/-!
# Tokens of a flat document

The tokens of a YAML text whose documents hold at most one mapping, of scalars to scalars. The
mapping stands in lines, or between braces at the top of its document; a text with a sequence or
with braces further inside has no tokens.

That a scalar is a key shows only at the colon behind it. A token that may start a key is therefore
kept back, together with those after it, until a colon or a new line decides; a key stays in one
line and is not longer than 1024 characters.

## Main definitions

* `Yaml.Token` : tokens.
* `Yaml.Lexer` : what is known of a text up to a glyph.
* `Yaml.Lexer.step?` : the next token.
* `Yaml.tokens?` : the tokens of a text.
-/

namespace SchemaBridge.Yaml

/-- The tokens of a flat document. -/
inductive Token where
  | directive (directive : Directive)
  | documentStart
  | documentEnd
  /-- A mapping in lines starts. -/
  | blockStart
  /-- A mapping in lines ends. -/
  | blockEnd
  | openBrace
  | closeBrace
  | comma
  /-- A key follows. -/
  | key
  /-- A value follows. -/
  | value
  | anchor (name : List Char)
  /-- The node of an anchor stands here again. -/
  | reference (anchor : List Char)
  | tag (tag : Tag)
  | scalar (text : List Char) (style : Style)
  deriving DecidableEq, Repr

/-! ### The state of a lexer -/

/-- Tokens that turn out to be a key if a colon follows. -/
structure Candidate where
  /-- They have to be one: they stand where the keys of a mapping stand. -/
  required : Bool
  line : Nat
  column : Nat
  tokens : List Token
  deriving DecidableEq, Repr

/-- What is known of a text up to a glyph. -/
structure Lexer where
  /-- The tokens that are settled. -/
  settled : List Token := []
  candidate : Option Candidate := none
  /-- The next token may start a key. -/
  keyAllowed : Bool := true
  /-- The text stands between braces. -/
  flow : Bool := false
  /-- The columns of the mappings in lines that are open, the innermost first. -/
  columns : List Nat := []
  deriving DecidableEq, Repr

namespace Lexer

/-- The least column of what belongs to the innermost mapping without being one of its keys. -/
def margin (lexer : Lexer) : Nat := lexer.columns.head?.elim 0 (· + 1)

/-- Adds a token at the end. -/
def emit (lexer : Lexer) (token : Token) : Lexer :=
  match lexer.candidate with
  | some c => { lexer with candidate := some { c with tokens := c.tokens ++ [token] } }
  | none => { lexer with settled := lexer.settled ++ [token] }

/-- Decides that the candidate is no key, which is an error if it has to be one. -/
def settle? (lexer : Lexer) : Option Lexer :=
  match lexer.candidate with
  | some c =>
    if c.required then none
    else some { lexer with settled := lexer.settled ++ c.tokens, candidate := none }
  | none => some lexer

/-- Decides about a candidate that is too far away to be a key of what stands at a glyph. -/
def expire? (lexer : Lexer) (g : Glyph) : Option Lexer :=
  match lexer.candidate with
  | some c => if c.line < g.line || c.column + 1024 < g.column then lexer.settle? else some lexer
  | none => some lexer

/-- Makes what starts at a glyph a candidate, if it may be a key. -/
def offer? (lexer : Lexer) (g : Glyph) : Option Lexer :=
  if lexer.keyAllowed then
    let required := !lexer.flow && lexer.columns.head? = some g.column
    lexer.settle?.map fun lexer =>
      { lexer with candidate := some ⟨required, g.line, g.column, []⟩ }
  else some lexer

/-- Closes the mappings in lines that lie right of a column. -/
def closeBeyond (column : Nat) (lexer : Lexer) : Lexer :=
  if lexer.flow then lexer
  else
    let beyond := lexer.columns.takeWhile (column < ·)
    { beyond.foldl (fun lexer _ => lexer.emit .blockEnd) lexer with
      columns := lexer.columns.drop beyond.length }

/-- Closes all mappings in lines. -/
def closeAll (lexer : Lexer) : Lexer :=
  if lexer.flow then lexer
  else { lexer.columns.foldl (fun lexer _ => lexer.emit .blockEnd) lexer with columns := [] }

/-- The token that starts a mapping in lines at a column, if none is open there, and the lexer
inside of it. -/
def openAt (column : Nat) (lexer : Lexer) : List Token × Lexer :=
  if !lexer.flow && lexer.margin ≤ column then
    ([.blockStart], { lexer with columns := column :: lexer.columns })
  else ([], lexer)

/-- The tokens between documents end what is open. -/
def separate? (lexer : Lexer) (token : Token) : Option Lexer :=
  lexer.closeAll.settle?.map fun lexer => { lexer with keyAllowed := false }.emit token

/-- A key that is announced by a question mark. -/
def announceKey? (lexer : Lexer) (g : Glyph) : Option Lexer :=
  if !lexer.flow && !lexer.keyAllowed then none
  else
    let (start, lexer) := lexer.openAt g.column
    (start.foldl emit lexer).settle?.map fun lexer =>
      { lexer with keyAllowed := !lexer.flow }.emit .key

/-- A value: the candidate is its key, if there is one. -/
def announceValue? (lexer : Lexer) (g : Glyph) : Option Lexer :=
  match lexer.candidate with
  | some c =>
    let (start, lexer) := lexer.openAt c.column
    some { lexer with
      settled := lexer.settled ++ start ++ .key :: c.tokens ++ [.value]
      candidate := none
      keyAllowed := false }
  | none =>
    if !lexer.flow && !lexer.keyAllowed then none
    else
      let (start, lexer) := lexer.openAt g.column
      some ({ start.foldl emit lexer with keyAllowed := !lexer.flow }.emit .value)

/-- A token that may be the start of a key, or belong to it. -/
def word? (lexer : Lexer) (g : Glyph) (token : Token) : Option Lexer :=
  (lexer.offer? g).map fun lexer => { lexer with keyAllowed := false }.emit token

/-- Reads a name behind the mark of an anchor or of an alias. -/
def name? (gs : List Glyph) : Option (List Char × List Glyph) :=
  let name := chars (gs.takeWhile fun g => isNameChar g.char)
  let rest := gs.drop name.length
  if !name.isEmpty &&
      (endsWord rest || rest.head?.any fun g => "?:,]\x7d%@`".toList.contains g.char) then
    some (name, rest)
  else none

/-- A plain scalar may start with a character, before these glyphs. -/
def startsPlain (flow : Bool) (c : Char) (rest : List Glyph) : Bool :=
  if c = '-' then !endsWord rest
  else if c = '?' || c = ':' then !flow && !endsWord rest
  else !isGap c && !",[]\x7b\x7d#&*!|>'\"%@`".toList.contains c

/-- Reads the token that starts at the first of these glyphs. -/
def step? (lexer : Lexer) : List Glyph → Option (Lexer × List Glyph)
  | [] => none
  | g :: rest =>
    if g.column = 0 && g.char = '%' then do
      let (directive, tail) ← directive? rest
      return (← lexer.separate? (.directive directive), tail)
    else if isMarker '-' (g :: rest) then do
      return (← lexer.separate? .documentStart, rest.drop 2)
    else if isMarker '.' (g :: rest) then do
      return (← lexer.separate? .documentEnd, rest.drop 2)
    else if g.char = '\x7b' then do
      if lexer.flow || !lexer.columns.isEmpty then none
      else return ({ ← lexer.settle? with flow := true, keyAllowed := true }.emit .openBrace, rest)
    else if g.char = '\x7d' then do
      if !lexer.flow then none
      else
        return ({ ← lexer.settle? with flow := false, keyAllowed := false }.emit .closeBrace, rest)
    else if g.char = ',' then do
      if !lexer.flow then none
      else return ({ ← lexer.settle? with keyAllowed := true }.emit .comma, rest)
    else if g.char = '?' && (lexer.flow || endsWord rest) then do
      return (← lexer.announceKey? g, rest)
    else if g.char = ':' && (lexer.flow || endsWord rest) then do
      return (← lexer.announceValue? g, rest)
    else if g.char = '*' then do
      let (name, tail) ← name? rest
      return (← lexer.word? g (.reference name), tail)
    else if g.char = '&' then do
      let (name, tail) ← name? rest
      return (← lexer.word? g (.anchor name), tail)
    else if g.char = '!' then do
      let (tag, tail) ← tag? lexer.flow rest
      return (← lexer.word? g (.tag tag), tail)
    else if (g.char = '|' || g.char = '>') && !lexer.flow then do
      let folding : Bool := g.char = '>'
      let (text, tail) ← block? folding lexer.columns.head? rest
      return ({ ← lexer.settle? with keyAllowed := true }.emit
        (.scalar text (if folding then .folded else .literal)), tail)
    else if g.char = '\'' || g.char = '"' then do
      let (text, tail) ← quoted? (g.char = '"') (.gap []) rest
      return (← lexer.word? g (.scalar text .quoted), tail)
    else if startsPlain lexer.flow g.char rest then do
      let (text, broken, tail) ← plain? lexer.flow lexer.margin [] (g :: rest)
      return ({ ← lexer.word? g (.scalar text .plain) with keyAllowed := broken }, tail)
    else none

/-- Passes over blanks, comments and empty lines: whether a key may follow, and what follows. A line
break allows keys, except between braces; where keys are allowed, a tab is no blank. -/
def skip (flow : Bool) : (keyAllowed comment : Bool) → List Glyph → Bool × List Glyph
  | keyAllowed, _, [] => (keyAllowed, [])
  | keyAllowed, comment, g :: rest =>
    if isBreak g.char then skip flow (keyAllowed || !flow) false rest
    else if comment then skip flow keyAllowed true rest
    else if g.char = ' ' || (g.char = '\t' && (flow || !keyAllowed)) ||
        (g.char = '\ufeff' && g.column = 0) then
      skip flow keyAllowed false rest
    else if g.char = '#' then skip flow keyAllowed true rest
    else (keyAllowed, g :: rest)

/-- Reads all tokens of the glyphs; the number bounds the steps. -/
def run? : Nat → Lexer → List Glyph → Option (List Token)
  | 0, _, _ => none
  | steps + 1, lexer, gs =>
    let (keyAllowed, gs) := skip lexer.flow lexer.keyAllowed false gs
    let lexer := { lexer with keyAllowed }
    match gs with
    | [] => lexer.closeAll.settle?.map Lexer.settled
    | g :: _ => do
      let (lexer, gs) ← ((← lexer.expire? g).closeBeyond g.column).step? gs
      run? steps lexer gs

end Lexer

/-- The tokens of a text. Every step reads a glyph at least. -/
def tokens? (text : String) : Option (List Token) :=
  (glyphs? text).bind fun gs => Lexer.run? (gs.length + 1) {} gs

end SchemaBridge.Yaml
