/-!
# Hexadecimal digits

Escapes in quoted texts give characters by number, in digits up to sixteen of either case.

## Main definitions

* `Hexadecimal.digit?` : the value of a digit.
-/

namespace SchemaBridge.Hexadecimal

/-- The value of a hexadecimal digit. -/
def digit? (c : Char) : Option Nat :=
  if '0' ≤ c ∧ c ≤ '9' then some (c.toNat - '0'.toNat)
  else if 'a' ≤ c ∧ c ≤ 'f' then some (c.toNat - 'a'.toNat + 10)
  else if 'A' ≤ c ∧ c ≤ 'F' then some (c.toNat - 'A'.toNat + 10)
  else none

end SchemaBridge.Hexadecimal
