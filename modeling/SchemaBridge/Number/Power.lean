/-!
# Powers of two and of ten

The powers that number formats are made of, with the few laws that exact arithmetic needs, and the
range of the integers that fit in 64 bits.

## Main definitions

* `twoTo`, `tenTo` : the powers.
* `wordLimit`, `signedLimit` : the bounds of 64 bits, without and with a sign.

## Main results

* `twoTo_add` : the power of a sum.
* `twoTo_dvd_twoTo` : a smaller power divides a larger one.
-/

namespace SchemaBridge

/-- The power of two. -/
def twoTo (n : Nat) : Nat := Nat.pow 2 n

/-- The power of ten. -/
def tenTo (n : Nat) : Nat := Nat.pow 10 n

/-- The least natural number that does not fit in 64 bits. -/
def wordLimit : Nat := twoTo 64

/-- The least natural number that does not fit in 64 bits with a sign. -/
def signedLimit : Nat := twoTo 63

theorem twoTo_pos (n : Nat) : 0 < twoTo n := Nat.two_pow_pos n

theorem twoTo_add (m n : Nat) : twoTo (m + n) = twoTo m * twoTo n := Nat.pow_add 2 m n

theorem twoTo_dvd_twoTo {m n : Nat} (h : m ≤ n) : twoTo m ∣ twoTo n := Nat.pow_dvd_pow 2 h

theorem twoTo_le_twoTo {m n : Nat} (h : m ≤ n) : twoTo m ≤ twoTo n :=
  Nat.pow_le_pow_right (by decide) h

theorem twoTo_lt_twoTo {m n : Nat} (h : m < n) : twoTo m < twoTo n :=
  Nat.pow_lt_pow_right (by decide) h

theorem log2_twoTo (n : Nat) : (twoTo n).log2 = n := Nat.log2_two_pow

/-- The binary logarithm of a positive number is below what its powers are below. -/
theorem log2_lt_of_lt_twoTo {k n : Nat} (hk : k ≠ 0) (h : k < twoTo n) : k.log2 < n :=
  (Nat.log2_lt hk).2 h

end SchemaBridge
