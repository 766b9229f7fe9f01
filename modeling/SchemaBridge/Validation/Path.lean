import SchemaBridge.Json.Printer
import SchemaBridge.Validation.Report
import SchemaBridge.Text.Blank

/-!
# Issue paths

Vendors report where an issue occurred as a list of steps, as steps between slashes or as an
accessor chain. All three are read into a list of steps. Between slashes and inside brackets, a
decimal numeral without leading zeros is a position; a quoted key is always a key.

## Main definitions

* `Path.step` : the step that a component is.
* `Path.readDelimited`, `Path.writeDelimited` : steps between slashes.
* `Path.readAccessor` : accessor chains.
* `Path.appendKey`, `Path.appendIndex` : accessor chains, written step by step.
* `Path.steps` : the steps of a vendor's path.
-/

namespace SchemaBridge.Path

/-! ### Components -/

/-- The character is an ASCII digit. -/
def isDigit (c : Char) : Bool := '0' ≤ c && c ≤ '9'

/-- The natural number of a list of digits. -/
def ofDigits (cs : List Char) : Nat := cs.foldl (fun n c => 10 * n + (c.toNat - '0'.toNat)) 0

/-- The component is a decimal numeral without leading zeros that fits in 64 bits. -/
def isPosition (cs : List Char) : Bool :=
  !cs.isEmpty && cs.all isDigit && (cs = ['0'] || cs.head? ≠ some '0') && ofDigits cs < wordLimit

/-- The step that a component is: a position if it is one, else a key. -/
def step (cs : List Char) : PathStep :=
  if isPosition cs then .index (ofDigits cs) else .key (String.ofList cs)

/-! ### Steps between slashes -/

/-- The parts of a text between the separators; there is always one part at least. -/
def split (separator : Char) : List Char → List (List Char)
  | [] => [[]]
  | c :: rest =>
    if c = separator then [] :: split separator rest
    else match split separator rest with
      | [] => [[c]]
      | part :: parts => (c :: part) :: parts

/-- The text with every `~` that is followed by `code` replaced, together with it, by `char`. -/
def replaceEscape (code char : Char) : List Char → List Char
  | [] => []
  | [c] => [c]
  | c :: d :: rest =>
    if c = '~' ∧ d = code then char :: replaceEscape code char rest
    else c :: replaceEscape code char (d :: rest)

/-- A component between slashes: `~1` stands for a slash, and after that `~0` for a tilde. -/
def unescape (cs : List Char) : List Char := replaceEscape '0' '~' (replaceEscape '1' '/' cs)

/-- The text without one slash at its head. -/
def dropSlash : List Char → List Char
  | '/' :: rest => rest
  | cs => cs

/-- The steps between slashes; a slash at the head says nothing. -/
def readDelimited (cs : List Char) : List PathStep :=
  match dropSlash cs with
  | [] => []
  | body => (split '/' body).map fun part => step (unescape part)

/-- A component with its tildes and slashes escaped. -/
def escape (cs : List Char) : List Char :=
  cs.flatMap fun c => if c = '~' then ['~', '0'] else if c = '/' then ['~', '1'] else [c]

/-- A slash and a component for every step. -/
def writeDelimited (steps : List PathStep) : List Char :=
  steps.flatMap fun s => '/' :: escape s.display.toList

/-! ### Accessor chains -/

/-- Where a reader of an accessor chain stands. -/
inductive Place where
  /-- After these characters of a bare key. -/
  | bare (key : List Char)
  /-- After an opening bracket. -/
  | opened
  /-- After these characters inside brackets. -/
  | inside (component : List Char)
  /-- After these characters of a key between quotes. -/
  | quoted (quote : Char) (key : List Char)
  /-- After a backslash in a key between quotes. -/
  | escaped (quote : Char) (key : List Char)
  /-- After a closing quote: one closing bracket may follow. -/
  | closed

/-- The step of a bare key, if there is one. -/
def bareStep (key : List Char) : List PathStep :=
  if key.isEmpty then [] else [.key (String.ofList key)]

/-- The step of a component inside brackets, without the blanks around it, if anything is left. -/
def insideStep (component : List Char) : List PathStep :=
  let trimmed := Blank.trim component
  if trimmed.isEmpty then [] else [step trimmed]

/-- What a character does outside of brackets, after these characters of a bare key: the steps that
it completes, and where the reader stands then. -/
def bareChar (key : List Char) (c : Char) : List PathStep × Place :=
  if c = '.' then (bareStep key, .bare [])
  else if c = '[' then (bareStep key, .opened)
  else ([], .bare (key ++ [c]))

/-- What a character does: the steps that it completes, and where the reader stands then. -/
def readChar : Place → Char → List PathStep × Place
  | .bare key, c => bareChar key c
  | .opened, c =>
    if c = '"' ∨ c = '\'' then ([], .quoted c [])
    else if c = ']' then ([], .bare [])
    else ([], .inside [c])
  | .inside component, c =>
    if c = ']' then (insideStep component, .bare []) else ([], .inside (component ++ [c]))
  | .quoted quote key, c =>
    if c = '\\' then ([], .escaped quote key)
    else if c = quote then ([.key (String.ofList key)], .closed)
    else ([], .quoted quote (key ++ [c]))
  | .escaped quote key, c => ([], .quoted quote (key ++ [c]))
  | .closed, c => if c = ']' then ([], .bare []) else bareChar [] c

/-- The step that the end of the chain completes. -/
def readEnd : Place → List PathStep
  | .bare key => bareStep key
  | .opened => []
  | .inside component => insideStep component
  | .quoted _ key => [.key (String.ofList key)]
  | .escaped _ key => [.key (String.ofList key)]
  | .closed => []

/-- The steps of a chain, read from a place on. -/
def readFrom : Place → List Char → List PathStep
  | place, [] => readEnd place
  | place, c :: rest =>
    let (steps, next) := readChar place c
    steps ++ readFrom next rest

/-- The steps of an accessor chain. -/
def readAccessor (cs : List Char) : List PathStep := readFrom (.bare []) cs

/-- The character may stand in a key that is written bare. -/
def isBareChar (c : Char) : Bool := c.isAlphanum || c = '_'

/-- The key is written bare: it is a word of ASCII letters, digits and underscores that does not
start with a digit. -/
def isBareKey (key : List Char) : Bool :=
  !key.isEmpty && key.all isBareChar && !key.head?.any Char.isDigit

/-- The chain with a key at its end: bare, after a point unless the chain is empty, or as a JSON
string between brackets. -/
def appendKey (chain : List Char) (key : String) : List Char :=
  if isBareKey key.toList then
    chain ++ (if chain.isEmpty then [] else ['.']) ++ key.toList
  else chain ++ '[' :: Json.quote key.toList ++ [']']

/-- The chain with a position at its end. -/
def appendIndex (chain : List Char) (position : Nat) : List Char :=
  chain ++ '[' :: Decimal.digits position ++ [']']

/-- The chain with a step at its end. -/
def appendStep (chain : List Char) : PathStep → List Char
  | .index position => appendIndex chain position
  | .key key => appendKey chain key

/-- The steps of a vendor's path; the empty list is the whole value. -/
def steps : VendorPath → List PathStep
  | .segments steps => steps
  | .delimited raw => readDelimited raw.toList
  | .accessor raw => readAccessor raw.toList

end SchemaBridge.Path
