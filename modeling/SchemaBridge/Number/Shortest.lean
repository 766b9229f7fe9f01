import SchemaBridge.Number.Binary64

/-!
# Shortest decimals

A decimal *reads back* as a double when the double is the nearest one to it. Among the decimals
that read back, the shortest ones have the fewest digits, and of those the one nearest to the
double is chosen. With `n` digits only the two grid points around the double can be that one, so
it is enough to test two candidates for each `n`, in exact arithmetic on naturals.

## Main definitions

* `Decimal` : a whole number times a power of ten.
* `Decimal.readsBack` : the decimal lies in the interval that rounds to a given magnitude.
* `Decimal.shortest` : the shortest decimal of a magnitude.
-/

namespace SchemaBridge

/-- What becomes of a value exactly between two candidates. -/
inductive Tie where
  | toEven
  | up
  deriving DecidableEq, Repr

/-- The value `coefficient * 10 ^ exponent`. -/
structure Decimal where
  coefficient : Nat
  exponent : Int
  deriving DecidableEq, Repr

namespace Decimal

/-- The decimal digits of a natural number, most significant first. -/
def digits (n : Nat) : List Char := Nat.toDigits 10 n

/-- Four times the value of the decimal in units, over the power of ten that clears its
denominator. -/
def scaled (d : Decimal) : Nat :=
  4 * d.coefficient * tenTo d.exponent.toNat * Binary64.one

/-- Four times a number of units, over the same power of ten as `scaled`. -/
def lift (exponent : Int) (quarters : Nat) : Nat := quarters * tenTo (-exponent).toNat

/-- The distance, in quarters of a unit, from a magnitude down to the middle of the gap below. The
gap below a power of two is half of the gap above. -/
def lowerGap (units : Nat) : Nat :=
  let step := Binary64.spacing units
  if units = twoTo 52 * step ∧ 1 < step then step else 2 * step

/-- The distance, in quarters of a unit, from a magnitude up to the middle of the gap above. -/
def upperGap (units : Nat) : Nat := 2 * Binary64.spacing units

/-- The decimal is nearer to the magnitude than to its neighbours; the middle of a gap belongs to
the even significand. -/
def readsBack (units : Nat) (d : Decimal) : Bool :=
  let low := lift d.exponent (4 * units - lowerGap units)
  let high := lift d.exponent (4 * units + upperGap units)
  if units / Binary64.spacing units % 2 = 0 then low ≤ d.scaled && d.scaled ≤ high
  else low < d.scaled && d.scaled < high

/-- The distance between a decimal and a magnitude, over the same power of ten as `scaled`. -/
def distance (units : Nat) (d : Decimal) : Nat :=
  let value := lift d.exponent (4 * units)
  (value - d.scaled) + (d.scaled - value)

/-- The number of decimal digits before the point of a positive magnitude; zero or less counts the
zeros that follow the point. -/
def pointPosition (units : Nat) : Int :=
  ((digits (units * tenTo 400 / Binary64.one)).length : Int) - 400

/-- Of the two neighbours of a magnitude on a decimal grid that read back, the nearer one. -/
def nearest? (tie : Tie) (units : Nat) (exponent : Int) : Option Decimal :=
  let below := lift exponent units / (tenTo exponent.toNat * Binary64.one)
  let low : Decimal := ⟨below, exponent⟩
  let high : Decimal := ⟨below + 1, exponent⟩
  match readsBack units low, readsBack units high with
  | false, false => none
  | true, false => some low
  | false, true => some high
  | true, true =>
    let toLow := distance units low
    let toHigh := distance units high
    if toLow < toHigh then some low
    else if toHigh < toLow then some high
    else match tie with
      | .up => some high
      | .toEven => some (if below % 2 = 0 then low else high)

/-- Takes a trailing zero off the coefficient. A candidate with the fewest digits ends in a zero
only if it is a power of ten. -/
def dropZero (d : Decimal) : Decimal :=
  if d.coefficient % 10 = 0 then ⟨d.coefficient / 10, d.exponent + 1⟩ else d

/-- The shortest decimal of a positive magnitude, searched among at most seventeen digits. -/
def search? (tie : Tie) (units : Nat) : Option Decimal :=
  (List.range 17).findSome? fun n =>
    nearest? tie units (pointPosition units - ((n + 1 : Nat) : Int))

/-- The shortest decimal of a positive magnitude. -/
def shortest (tie : Tie) (units : Nat) : Decimal :=
  dropZero ((search? tie units).getD ⟨units, 0⟩)

end Decimal

end SchemaBridge
