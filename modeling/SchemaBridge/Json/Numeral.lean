import SchemaBridge.Json.Basic

/-!
# Numerals

The grammar of a JSON numeral, and the number that it stands for. A numeral without fraction and
exponent is an integer if it fits in 64 bits, signed or unsigned; a negative zero and everything
else is a double. A double is read from the leading digits that fit in 64 bits: they are rounded
to a double, and then multiplied or divided by a power of ten, with one rounding at each step. A
numeral whose value exceeds the finite range stands for nothing.

## Main definitions

* `Numeral` : the parts of a numeral.
* `Numeral.read?` : the numeral at the head of a text.
* `Numeral.value?` : the number that a numeral stands for.
-/

namespace SchemaBridge

/-- The parts of a numeral: its digits as numbers below ten. The fraction is absent or not
empty. -/
structure Numeral where
  negative : Bool
  whole : List Nat
  fraction : List Nat
  exponent : Option Int
  deriving DecidableEq, Repr

namespace Numeral

/-! ### Grammar -/

/-- The digit that a character is. -/
def digit? (c : Char) : Option Nat :=
  if '0' ≤ c ∧ c ≤ '9' then some (c.toNat - '0'.toNat) else none

/-- The digits at the head of a text, and what follows them. -/
def readDigits : List Char → List Nat × List Char
  | [] => ([], [])
  | c :: rest =>
    match digit? c with
    | some d => let (ds, tail) := readDigits rest; (d :: ds, tail)
    | none => ([], c :: rest)

/-- The natural number of a list of digits. -/
def ofDigits (ds : List Nat) : Nat := ds.foldl (fun n d => 10 * n + d) 0

/-- The whole part: a zero, or digits that do not start with a zero. -/
def readWhole? (cs : List Char) : Option (List Nat × List Char) :=
  match readDigits cs with
  | ([], _) => none
  | (0 :: _ :: _, _) => none
  | (ds, rest) => some (ds, rest)

/-- The fraction, if there is a point: at least one digit must follow it. -/
def readFraction? : List Char → Option (List Nat × List Char)
  | '.' :: rest =>
    match readDigits rest with
    | ([], _) => none
    | (ds, tail) => some (ds, tail)
  | cs => some ([], cs)

/-- The digits of an exponent, with the sign that precedes them. -/
def readSigned? (negative : Bool) (cs : List Char) : Option (Option Int × List Char) :=
  match readDigits cs with
  | ([], _) => none
  | (ds, rest) => some (some (if negative then -(ofDigits ds : Int) else ofDigits ds), rest)

/-- The exponent, if there is an exponent mark. -/
def readExponent? : List Char → Option (Option Int × List Char)
  | c :: rest =>
    if c = 'e' ∨ c = 'E' then
      match rest with
      | '+' :: tail => readSigned? false tail
      | '-' :: tail => readSigned? true tail
      | _ => readSigned? false rest
    else some (none, c :: rest)
  | [] => some (none, [])

/-- The numeral at the head of a text, and what follows it. -/
def read? (cs : List Char) : Option (Numeral × List Char) := do
  let (negative, cs) := match cs with
    | '-' :: rest => (true, rest)
    | _ => (false, cs)
  let (whole, cs) ← readWhole? cs
  let (fraction, cs) ← readFraction? cs
  let (exponent, cs) ← readExponent? cs
  return (⟨negative, whole, fraction, exponent⟩, cs)

/-! ### Value -/

/-- The digits are taken up while the number stays below `wordLimit`; the rest is returned. -/
def takeUp (n : Nat) : List Nat → Nat × List Nat
  | [] => (n, [])
  | d :: rest => if 10 * n + d < wordLimit then takeUp (10 * n + d) rest else (n, d :: rest)

/-- The double nearest to a power of ten. -/
def powerOfTen (n : Nat) : Binary64 := .ofNat (tenTo n)

/-- A double times a power of ten, in steps of at most `10 ^ 308`, rounded at each step; nothing if
it leaves the finite range. -/
def scale? (x : Binary64) (exponent : Int) : Option Binary64 :=
  if exponent.natAbs ≤ 308 then
    if 0 ≤ exponent then
      let y := x.mul (powerOfTen exponent.natAbs)
      if y.isFinite then some y else none
    else some (x.div (powerOfTen exponent.natAbs))
  else if x.equal (.ofNat 0) then some x
  else if 0 ≤ exponent then none
  else scale? (x.div (powerOfTen 308)) (exponent + 308)
termination_by exponent.natAbs
decreasing_by omega

/-- The double that a numeral is read as. -/
def toBinary64? (n : Numeral) : Option Binary64 :=
  let (head, dropped) := takeUp 0 n.whole
  let (significand, rest) := takeUp head n.fraction
  let shift : Int := dropped.length - (n.fraction.length - rest.length)
  let magnitude := scale? (.ofNat significand) (shift + n.exponent.getD 0)
  if n.negative then magnitude.map Binary64.neg else magnitude

/-- The integer that a numeral is, if it has neither fraction nor exponent and fits in 64 bits. The
negative zero is no integer. -/
def toInt? (n : Numeral) : Option Int :=
  let magnitude := ofDigits n.whole
  if n.fraction ≠ [] ∨ n.exponent.isSome then none
  else if n.negative then
    if 0 < magnitude ∧ magnitude ≤ signedLimit then some (-magnitude) else none
  else if magnitude < wordLimit then some magnitude else none

/-- The number that a numeral stands for. -/
def value? (n : Numeral) : Option Number :=
  match n.toInt? with
  | some i => some (.integer i)
  | none => n.toBinary64?.map .float

end Numeral

end SchemaBridge
