import SchemaBridge.Number.Power

/-!
# Double-precision numbers

A double-precision number is a NaN, an infinity, or finite. A finite one is kept as a sign and a
magnitude counted in units of `2⁻¹⁰⁷⁴`, the spacing of the smallest positive numbers: every finite
number is a whole multiple of that unit, so comparison is comparison of integers and every
operation is an exact quotient of naturals, rounded once (to nearest, a tie to the even
significand).

## Main definitions

* `Binary64` : the numbers, with both zeros.
* `Binary64.ofRatio` : the number nearest to a quotient of naturals.
* `Binary64.ofInt`, `Binary64.mul`, `Binary64.div` : correctly rounded conversion and arithmetic.
* `Binary64.lt`, `Binary64.equal` : the order and the equality of values.
* `Binary64.toInt?` : the integer that a number is, below `2 ^ 53`.

## Main results

* `Binary64.roundHalfEven_eq_of_dvd` : an exact quotient is not rounded.
* `Binary64.toInt?_ofInt` : such an integer is read back.
-/

namespace SchemaBridge

/-- A double-precision binary floating-point number; a finite magnitude is counted in units of
`2⁻¹⁰⁷⁴`. -/
inductive Binary64 where
  | nan
  | infinity (negative : Bool)
  | finite (negative : Bool) (units : Nat)
  deriving DecidableEq, Repr

namespace Binary64

/-- The binary digits of a unit after the point. -/
def pointBits : Nat := 1074

/-- The binary digits before the point of the largest finite numbers. -/
def rangeBits : Nat := 1024

/-- The number of units in one. -/
@[irreducible] def one : Nat := twoTo pointBits

/-- The least number of units that is out of the finite range. -/
@[irreducible] def limit : Nat := twoTo (rangeBits + pointBits)

/-- The largest integer below which every integer is a double. -/
def maxInteger : Nat := twoTo 53 - 1

/-- The quotient rounded to the nearest integer, a tie to the even one. -/
def roundHalfEven (num den : Nat) : Nat :=
  let quotient := num / den
  let twice := 2 * (num % den)
  if twice < den then quotient
  else if den < twice then quotient + 1
  else quotient + quotient % 2

/-- The spacing of the doubles around a magnitude, in units: the value of the last of its 53
significant bits. -/
def spacing (units : Nat) : Nat := twoTo (units.log2 - 52)

/-- The double nearest to `num / den` units. -/
def ofRatio (negative : Bool) (num den : Nat) : Binary64 :=
  let step := spacing (num / den)
  let units := roundHalfEven num (den * step) * step
  if units < limit then finite negative units else infinity negative

/-- The double nearest to a natural number. -/
def ofNat (n : Nat) : Binary64 := ofRatio false (n * one) 1

/-- The double nearest to an integer. -/
def ofInt (i : Int) : Binary64 := ofRatio (i < 0) (i.natAbs * one) 1

/-- The units of a finite number, signed. -/
def signed (negative : Bool) (units : Nat) : Int := if negative then -units else units

/-- The number is neither a NaN nor an infinity. -/
def isFinite : Binary64 → Bool
  | finite .. => true
  | _ => false

/-- Strictly less, by value; never true of a NaN. -/
def lt : Binary64 → Binary64 → Bool
  | nan, _ => false
  | _, nan => false
  | infinity s, infinity t => s && !t
  | infinity s, finite .. => s
  | finite .., infinity t => !t
  | finite s a, finite t b => signed s a < signed t b

/-- Equal, by value: the two zeros are equal, and a NaN equals nothing. -/
def equal : Binary64 → Binary64 → Bool
  | infinity s, infinity t => s == t
  | finite s a, finite t b => signed s a == signed t b
  | _, _ => false

/-- The number with the other sign. -/
def neg : Binary64 → Binary64
  | nan => nan
  | infinity s => infinity !s
  | finite s a => finite (!s) a

/-- The product, rounded. -/
def mul : Binary64 → Binary64 → Binary64
  | nan, _ => nan
  | _, nan => nan
  | infinity s, infinity t => infinity (s != t)
  | infinity s, finite t b => if b = 0 then nan else infinity (s != t)
  | finite s a, infinity t => if a = 0 then nan else infinity (s != t)
  | finite s a, finite t b => ofRatio (s != t) (a * b) one

/-- The quotient, rounded. -/
def div : Binary64 → Binary64 → Binary64
  | nan, _ => nan
  | _, nan => nan
  | infinity _, infinity _ => nan
  | infinity s, finite t _ => infinity (s != t)
  | finite s _, infinity t => finite (s != t) 0
  | finite s a, finite t b =>
    if b = 0 then (if a = 0 then nan else infinity (s != t)) else ofRatio (s != t) (a * one) b

/-- The integer that the number is, if it is one of magnitude at most `maxInteger`. -/
def toInt? : Binary64 → Option Int
  | finite s a =>
    if a % one = 0 ∧ a / one ≤ maxInteger then some (signed s (a / one)) else none
  | _ => none

theorem equal_self {x : Binary64} (h : x ≠ nan) : x.equal x = true := by
  cases x <;> simp_all [equal]

/-! ### Exact cases -/

theorem roundHalfEven_eq_of_dvd {num den : Nat} (h : den ∣ num) (hd : 0 < den) :
    roundHalfEven num den = num / den := by
  simp [roundHalfEven, Nat.mod_eq_zero_of_dvd h, hd]

theorem one_pos : 0 < one := by
  unfold one
  exact twoTo_pos _

theorem spacing_pos (units : Nat) : 0 < spacing units := twoTo_pos _

theorem mul_one_lt {n : Nat} (hn : n < twoTo 53) : n * one < twoTo (53 + pointBits) := by
  have e : one = twoTo pointBits := by unfold one; rfl
  rw [twoTo_add, ← e]
  exact Nat.mul_lt_mul_of_pos_right hn one_pos

theorem spacing_dvd_mul_one {n : Nat} (hn : n < twoTo 53) : spacing (n * one) ∣ n * one := by
  by_cases h0 : n = 0
  · simp [h0]
  · have hne : n * one ≠ 0 := Nat.mul_ne_zero h0 (Nat.ne_of_gt one_pos)
    have hlog : (n * one).log2 < 53 + pointBits := log2_lt_of_lt_twoTo hne (mul_one_lt hn)
    have hdvd : spacing (n * one) ∣ one := by
      have : (n * one).log2 - 52 ≤ pointBits := by omega
      unfold spacing one at *
      exact twoTo_dvd_twoTo this
    exact Nat.dvd_trans hdvd (Nat.dvd_mul_left one n)

theorem ofRatio_of_lt (negative : Bool) {n : Nat} (hn : n < twoTo 53) :
    ofRatio negative (n * one) 1 = finite negative (n * one) := by
  have hdvd := spacing_dvd_mul_one hn
  have hle : 53 + pointBits ≤ rangeBits + pointBits := by decide
  have hlt : n * one < limit := by
    refine Nat.lt_of_lt_of_le (mul_one_lt hn) ?_
    unfold limit
    exact twoTo_le_twoTo hle
  simp only [ofRatio, Nat.div_one, Nat.one_mul]
  rw [roundHalfEven_eq_of_dvd hdvd (spacing_pos _), Nat.div_mul_cancel hdvd, if_pos hlt]

/-- An integer of magnitude below `2 ^ 53` is read back. -/
theorem toInt?_ofInt {i : Int} (hi : i.natAbs < twoTo 53) : toInt? (ofInt i) = some i := by
  have hone : one ≠ 0 := Nat.ne_of_gt one_pos
  have hle : i.natAbs ≤ maxInteger := by rw [maxInteger]; omega
  rw [ofInt, ofRatio_of_lt _ hi, toInt?]
  rw [Nat.mul_mod_left, Nat.mul_div_cancel _ one_pos]
  simp only [hle, and_self, if_true, signed]
  by_cases h : i < 0
  · simp only [h, decide_true, if_true, Option.some.injEq]
    omega
  · simp only [h, decide_false, Bool.false_eq_true, if_false, Option.some.injEq]
    omega

end Binary64

end SchemaBridge
