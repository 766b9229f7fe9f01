import Mathlib.Data.List.Induction
import SchemaBridge.Validation.Path

/-!
# Components that are positions

A component is a position if it is the decimal numeral of a number that fits in 64 bits. Read as a
number and written again, a row of digits without leading zeros is the same row: so the numerals of
the positions are all components that are taken for one, and every other component is a key.

## Main definitions

* `Path.IsCanonicalStep` : steps of which the text is read as the step itself.

## Main results

* `Path.isPosition_iff` : what is a position, by the numerals.
* `Path.step_eq_iff` : the component of a step is its text, if the step is canonical.
-/

namespace SchemaBridge.Path

/-! ### Digits -/

theorem toNat_of_isDigit {c : Char} (h : isDigit c = true) : 48 ≤ c.toNat ∧ c.toNat ≤ 57 := by
  rw [isDigit, Bool.and_eq_true, decide_eq_true_iff, decide_eq_true_iff] at h
  exact h

/-- A digit is the numeral of the number that it stands for. -/
theorem digits_of_isDigit {c : Char} (h : isDigit c = true) :
    c.toNat - 48 < 10 ∧ Decimal.digits (c.toNat - 48) = [c] := by
  obtain ⟨least, most⟩ := toNat_of_isDigit h
  have small : c.toNat - 48 < 10 := by omega
  refine ⟨small, ?_⟩
  have same : Nat.digitChar (c.toNat - 48) = c := by
    rw [← Char.toNat_inj, Nat.toNat_digitChar_of_lt_ten small]
    omega
  rw [Decimal.digits, Nat.toDigits_of_lt_base small, same]

theorem isDigit_digits {n : Nat} {c : Char} (mem : c ∈ Decimal.digits n) : isDigit c = true :=
  Nat.isDigit_of_mem_toDigits (by decide) (Nat.le_refl 10) mem

theorem ofDigits_digits (n : Nat) : ofDigits (Decimal.digits n) = n := by
  have same := Nat.ofDigitChars_ten_toDigits (n := n)
  rw [Nat.ofDigitChars_eq_foldl] at same
  exact same

/-! ### Numerals -/

/-- A numeral only starts with a zero if it is that of zero. -/
theorem digits_head_zero {n : Nat} (h : (Decimal.digits n).head? = some '0') : n = 0 := by
  induction n using Nat.strongRecOn with
  | ind n ih =>
    rw [Decimal.digits, Nat.toDigits_eq_if (by decide)] at h
    split at h
    · exact Nat.digitChar_eq_zero.1 (Option.some.inj h)
    · rename_i large
      have := ih (n / 10) (Nat.div_lt_self (by omega) (by decide))
      rw [List.head?_append, Option.or_of_isSome (List.isSome_head?.2 Nat.toDigits_ne_nil)] at h
      have := this h
      omega

/-- A row of digits without a leading zero is the numeral of its number. -/
private theorem digits_ofDigits_of_head {cs : List Char} (nonempty : cs ≠ [])
    (digits : ∀ c ∈ cs, isDigit c = true) (leading : cs.head? ≠ some '0') :
    0 < ofDigits cs ∧ Decimal.digits (ofDigits cs) = cs := by
  induction cs using List.reverseRecOn with
  | nil => exact absurd rfl nonempty
  | append_singleton before last ih =>
    obtain ⟨small, single⟩ := digits_of_isDigit (digits last (List.mem_append_right _ (.head _)))
    have value : ofDigits (before ++ [last]) = 10 * ofDigits before + (last.toNat - 48) :=
      List.foldl_append
    cases before with
    | nil =>
      have alone : ofDigits ([] ++ [last]) = last.toNat - 48 := by
        rw [value]
        exact Nat.zero_add _
      rw [alone]
      refine ⟨Nat.pos_of_ne_zero fun zero => leading ?_, single⟩
      rw [zero] at single
      exact congrArg List.head? single.symm
    | cons first rest =>
      obtain ⟨positive, same⟩ := ih (List.cons_ne_nil _ _)
        (fun c mem => digits c (List.mem_append_left _ mem)) leading
      refine ⟨by omega, ?_⟩
      rw [value, Decimal.digits, ← Nat.toDigits_append_toDigits (by decide) positive small]
      exact congrArg₂ (· ++ ·) same single

/-- The positions are the numerals of the numbers that fit. -/
theorem isPosition_iff (cs : List Char) :
    isPosition cs = true ↔ ∃ n < wordLimit, cs = Decimal.digits n := by
  rw [isPosition]
  simp only [Bool.and_eq_true, Bool.or_eq_true, decide_eq_true_eq, Bool.not_eq_true',
    List.isEmpty_eq_false_iff, List.all_eq_true]
  constructor
  · rintro ⟨⟨⟨nonempty, digits⟩, leading⟩, fits⟩
    refine ⟨ofDigits cs, fits, ?_⟩
    rcases leading with rfl | leading
    · rfl
    · exact (digits_ofDigits_of_head nonempty digits leading).2.symm
  · rintro ⟨n, fits, rfl⟩
    rw [ofDigits_digits]
    refine ⟨⟨⟨Nat.toDigits_ne_nil, fun c => isDigit_digits⟩, ?_⟩, fits⟩
    rcases Nat.eq_zero_or_pos n with rfl | positive
    · exact .inl rfl
    · exact .inr fun leading => by
        have := digits_head_zero leading
        omega

/-- The numeral of a number that fits is a position. -/
theorem step_digits {n : Nat} (fits : n < wordLimit) : step (Decimal.digits n) = .index n := by
  rw [step, if_pos ((isPosition_iff _).2 ⟨n, fits, rfl⟩), ofDigits_digits]

/-! ### Steps and their texts -/

/-- The text of the step is read as the step: a position fits in 64 bits, and a key is not the text
of such a position. -/
def IsCanonicalStep : PathStep → Prop
  | .index i => i < wordLimit
  | .key name => ∀ i < wordLimit, name ≠ toString i

theorem toList_toString (n : Nat) : (toString n).toList = Decimal.digits n := by
  rw [Nat.toString_eq_ofList_toDigits, String.toList_ofList]
  rfl

/-- A key is canonical if it is no position. -/
theorem isCanonicalStep_key_iff (name : String) :
    IsCanonicalStep (.key name) ↔ isPosition name.toList = false := by
  rw [← Bool.not_eq_true, isPosition_iff]
  constructor
  · rintro canonical ⟨n, fits, same⟩
    exact canonical n fits (String.toList_injective (same.trans (toList_toString n).symm))
  · rintro noPosition n fits rfl
    exact noPosition ⟨n, fits, toList_toString n⟩

instance : DecidablePred IsCanonicalStep
  | .index i => inferInstanceAs (Decidable (i < wordLimit))
  | .key name => decidable_of_iff _ (isCanonicalStep_key_iff name).symm

/-- A component is read as the canonical step of which it is the text. -/
theorem step_eq_iff (cs : List Char) (s : PathStep) :
    step cs = s ↔ IsCanonicalStep s ∧ s.display.toList = cs := by
  constructor
  · rintro rfl
    rw [step]
    split
    · rename_i isNumeral
      obtain ⟨n, fits, rfl⟩ := (isPosition_iff cs).1 isNumeral
      rw [ofDigits_digits]
      exact ⟨fits, toList_toString n⟩
    · rename_i noNumeral
      rw [isCanonicalStep_key_iff, PathStep.display, String.toList_ofList]
      exact ⟨Bool.not_eq_true _ ▸ noNumeral, rfl⟩
  · rintro ⟨canonical, rfl⟩
    cases s with
    | index i =>
      rw [PathStep.display, toList_toString]
      exact step_digits canonical
    | key name =>
      rw [PathStep.display, step, if_neg, String.ofList_toList]
      rw [(isCanonicalStep_key_iff name).1 canonical]
      exact Bool.false_ne_true

end SchemaBridge.Path
