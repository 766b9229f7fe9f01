import SchemaBridge.Proofs.Compile.Bounds
import SchemaBridge.Proofs.Draft07.Structures
import SchemaBridge.Proofs.Number.Exact

/-!
# Legal values of bound keywords

What draft 07 says about the values of bound keywords, it says by a schema of schemas: a limit of a
number is a number, and a limit of a size is an integer that is not negative. A count is always
legal. A bound is a double, and what is written for it is legal if the double has a value of that
kind; neither a fraction nor a sign is taken off it on the way, and no number is written for an
infinity or a NaN.

## Main definitions

* `Draft07.boundMeta` : the schema of the values of a bound keyword.
* `Draft07.LegalBound` : a value is accepted by it.
* `Draft07.Fits` : a double has a value that is legal under a keyword.

## Main results

* `Draft07.legalBound_ofNat` : a count is legal.
* `Draft07.legalBound_boundNumber_iff` : what is written for a double is legal if and only if it
  fits.
-/

namespace SchemaBridge

open Binary64

/-- The number is a size: finite, whole, and not negative. -/
def Binary64.IsSize : Binary64 → Prop
  | finite negative units => one ∣ units ∧ (negative = true → units = 0)
  | _ => False

namespace Draft07

/-- The keywords of bounds on numbers; the others are about sizes. -/
def valueKeywords : List String := ["minimum", "maximum"]

/-- The schema that draft 07 has for the values of a bound keyword. -/
def boundMeta (keyword : String) : Json.Fields :=
  if keyword ∈ valueKeywords then [("type", .string "number")]
  else [("type", .string "integer"), ("minimum", .ofNat 0)]

/-- The value is legal under a bound keyword. -/
def LegalBound (keyword : String) (value : Json) : Prop :=
  Accepts (named []) (boundMeta keyword) value

/-- The double has a value that is legal under a bound keyword. -/
def Fits (keyword : String) (x : Binary64) : Prop :=
  if keyword ∈ valueKeywords then x.isFinite = true else x.IsSize

variable {keyword : String} {value : Json}

/-- Keywords that look at the value itself all have to hold. -/
private theorem accepts_iff_assertions {schema : Json.Fields}
    (inert : ∀ entry ∈ schema, entry.1 ∉ "$ref" :: applicators) :
    Accepts (named []) schema value ↔ ∀ entry ∈ schema, assertion entry.1 entry.2 value = true := by
  have plain : Table.get? schema "$ref" = none := by
    rw [Table.get?_eq_none_iff]
    intro isKey
    obtain ⟨entry, mem, isRef⟩ := List.mem_map.1 isKey
    exact inert entry mem (isRef ▸ List.mem_cons_self)
  have isAssertion (entry) (mem : entry ∈ schema) : entry.1 ∉ applicators := fun isApplicator =>
    inert entry mem (List.mem_cons_of_mem _ isApplicator)
  rw [accepts_iff plain]
  constructor
  · exact fun holds entry mem => (holds entry.1 entry.2 mem).asserts (isAssertion entry mem)
  · exact fun holds _ _ mem => .assertion (isAssertion _ mem) (holds _ mem)

/-- A limit of a number is a number. -/
theorem legalBound_iff_of_value (isValue : keyword ∈ valueKeywords) :
    LegalBound keyword value ↔ value.isNumber = true := by
  rw [LegalBound, boundMeta, if_pos isValue,
    accepts_iff_assertions (List.forall_mem_singleton.2 (by decide)), List.forall_mem_singleton]
  cases value with
  | number n => exact iff_of_true rfl rfl
  | bool b => cases b <;> exact iff_of_false (by decide) Bool.false_ne_true
  | _ =>
    exact iff_of_false (by simp [assertion, Json.asString?, hasType, Json.typeWord])
      Bool.false_ne_true

/-- A limit of a size is a whole number that is not negative. -/
theorem legalBound_iff_of_size (isSize : keyword ∉ valueKeywords) :
    LegalBound keyword value ↔
      ∃ n, value = .number n ∧ n.isWhole = true ∧ Number.le (.integer 0) n = true := by
  rw [LegalBound, boundMeta, if_neg isSize, accepts_iff_assertions (List.forall_mem_cons.2
    ⟨by decide, List.forall_mem_singleton.2 (by decide)⟩), List.forall_mem_cons,
    List.forall_mem_singleton]
  cases value with
  | number n =>
    constructor
    · rintro ⟨whole, positive⟩
      exact ⟨n, rfl, whole, positive⟩
    · rintro ⟨_, ⟨⟩, whole, positive⟩
      exact ⟨whole, positive⟩
  | _ =>
    refine iff_of_false (fun both => ?_) (by simp)
    simp [assertion, Json.asString?, hasType, Json.typeWord] at both

/-- Whether a number is whole and not negative, by its value. -/
private theorem isWhole_and_le_iff {n : Number} {negative : Bool} {units : Nat}
    (value : n.units? = some (signed negative units)) :
    (n.isWhole = true ∧ Number.le (.integer 0) n = true) ↔ (finite negative units).IsSize := by
  have zero : (Number.integer 0).units? = some 0 := congrArg some (Int.zero_mul _)
  rw [Number.isWhole, Number.le, zero, value, Option.any_some, decide_eq_true_eq, decide_eq_true_eq,
    ← Int.dvd_iff_emod_eq_zero]
  change _ ↔ one ∣ units ∧ (negative = true → units = 0)
  cases negative with
  | false =>
    change (one : Int) ∣ units ∧ (0 : Int) ≤ units ↔ _
    rw [Int.natCast_dvd_natCast]
    exact and_congr_right fun _ =>
      iff_of_true (Int.natCast_nonneg _) fun isTrue => absurd isTrue Bool.false_ne_true
  | true =>
    change (one : Int) ∣ -(units : Int) ∧ (0 : Int) ≤ -(units : Int) ↔ _
    rw [Int.dvd_neg, Int.natCast_dvd_natCast]
    refine and_congr_right fun _ => ?_
    rw [Int.neg_nonneg, Int.natCast_nonpos_iff]
    exact ⟨fun zero _ => zero, fun zero => zero rfl⟩

/-- A count is legal under every bound keyword. -/
theorem legalBound_ofNat (keyword : String) (n : Nat) : LegalBound keyword (.ofNat n) := by
  by_cases isValue : keyword ∈ valueKeywords
  · exact (legalBound_iff_of_value isValue).2 rfl
  · have value : (Number.integer n).units? = some (signed false (n * one)) :=
      congrArg some (Int.natCast_mul n one).symm
    exact (legalBound_iff_of_size isValue).2
      ⟨.integer n, rfl, (isWhole_and_le_iff value).2 ⟨Nat.dvd_mul_left _ _, nofun⟩⟩

/-- What is written for a double is legal if and only if the double fits. -/
theorem legalBound_boundNumber_iff (keyword : String) (x : Binary64) :
    LegalBound keyword (Assembly.boundNumber x) ↔ Fits keyword x := by
  -- For an infinity or a NaN no number is written.
  have null (written : Assembly.boundNumber x = .null) (infinite : x.isFinite = false)
      (noSize : ¬ x.IsSize) : LegalBound keyword (Assembly.boundNumber x) ↔ Fits keyword x := by
    rw [written, Fits]
    split
    next isValue =>
      rw [legalBound_iff_of_value isValue, infinite]
      exact iff_of_false nofun nofun
    next isSize =>
      rw [legalBound_iff_of_size isSize]
      exact iff_of_false nofun noSize
  cases x with
  | nan => exact null rfl rfl id
  | infinity => exact null rfl rfl id
  | finite negative units =>
    obtain ⟨bound, written, value⟩ := Assembly.boundNumber_finite negative units
    rw [written, Fits]
    split
    next isValue => exact iff_of_true ((legalBound_iff_of_value isValue).2 rfl) rfl
    next isSize =>
      rw [legalBound_iff_of_size isSize, ← isWhole_and_le_iff value]
      simp only [Json.number.injEq, exists_eq_left']

end Draft07

end SchemaBridge
