/-!
# Blanks

The characters with the Unicode property `White_Space`, and texts without blanks at their ends.

## Main definitions

* `Blank.isBlank` : the property.
* `Blank.trim` : a text without the blanks at its ends.

## Main results

* `Blank.trim_eq_self` : a text that neither starts nor ends with a blank is left as it is.
-/

namespace SchemaBridge.Blank

/-- The first and last code points of the ranges of blanks. -/
def ranges : List (Nat × Nat) :=
  [(0x09, 0x0D), (0x20, 0x20), (0x85, 0x85), (0xA0, 0xA0), (0x1680, 0x1680), (0x2000, 0x200A),
    (0x2028, 0x2029), (0x202F, 0x202F), (0x205F, 0x205F), (0x3000, 0x3000)]

/-- The character is a blank. -/
def isBlank (c : Char) : Bool := ranges.any fun r => r.1 ≤ c.toNat && c.toNat ≤ r.2

/-- A text without the blanks at its head. -/
def trimHead (cs : List Char) : List Char := cs.dropWhile isBlank

/-- A text without the blanks at its ends. -/
def trim (cs : List Char) : List Char := (trimHead (trimHead cs).reverse).reverse

theorem trimHead_eq_self {cs : List Char} (h : ∀ c ∈ cs.head?, isBlank c = false) :
    trimHead cs = cs := by
  cases cs with
  | nil => rfl
  | cons c rest => simp [trimHead, h c (by simp)]

/-- A text that neither starts nor ends with a blank is left as it is. -/
theorem trim_eq_self {cs : List Char} (hh : ∀ c ∈ cs.head?, isBlank c = false)
    (hl : ∀ c ∈ cs.getLast?, isBlank c = false) : trim cs = cs := by
  have hr : trimHead cs.reverse = cs.reverse :=
    trimHead_eq_self (by simpa [List.head?_reverse] using hl)
  rw [trim, trimHead_eq_self hh, hr, List.reverse_reverse]

end SchemaBridge.Blank
