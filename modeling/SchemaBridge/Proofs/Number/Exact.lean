import SchemaBridge.Compile.Assembly
import SchemaBridge.Draft07.Acceptance

/-!
# Numbers that doubles hold exactly

An integer of magnitude at most `2 ^ 53` is a double exactly. So a bound that is a double and a
number of that size compare in the same way whether the number is converted to a double first, as a
validator does, or the two are compared by exact value, as a document is read. Counts of characters,
items and properties are such numbers. A greater integer is rounded, but not below `2 ^ 53`: with
bounds up to there it compares in the same way unless it becomes the bound.

## Main definitions

* `Number.IsExact` : a number that its double is equal to.
* `Number.ComparesWith` : a number that compares with a bound as its double does.
* `Json.Exact` : all numbers and sizes in a value are such numbers.

## Main results

* `Binary64.ofNat_of_le` : a natural number up to `2 ^ 53` is a double exactly.
* `Binary64.ofRatio_of_ge` : a greater one is not rounded below `2 ^ 53`.
* `Number.ComparesWith.le_iff` : comparison with a bound up to `2 ^ 53`.
* `Number.IsExact.le_of_not_lt`, `Number.IsExact.ge_of_not_lt` : comparison with a bound is exact.
-/

namespace SchemaBridge

namespace Binary64

/-- A power of two, in units. -/
private theorem twoTo_mul_one (k : Nat) : twoTo (k + pointBits) = twoTo k * one := by
  unfold one
  exact twoTo_add k pointBits

/-- The spacing around `2 ^ 53` is two, which divides it. -/
private theorem spacing_dvd_twoTo : spacing (twoTo 53 * one) ∣ twoTo 53 * one := by
  rw [← twoTo_mul_one, spacing, log2_twoTo]
  exact twoTo_dvd_twoTo (Nat.sub_le _ _)

theorem ofRatio_of_le (negative : Bool) {n : Nat} (h : n ≤ twoTo 53) :
    ofRatio negative (n * one) 1 = finite negative (n * one) := by
  rcases Nat.lt_or_eq_of_le h with less | rfl
  · exact ofRatio_of_lt negative less
  · have inRange : twoTo 53 * one < limit := by
      unfold one limit
      rw [← twoTo_add]
      exact twoTo_lt_twoTo (by decide)
    simp only [ofRatio, Nat.div_one, Nat.one_mul]
    rw [roundHalfEven_eq_of_dvd spacing_dvd_twoTo (spacing_pos _),
      Nat.div_mul_cancel spacing_dvd_twoTo, if_pos inRange]

/-- The number is finite, of magnitude at most `2 ^ 53`. -/
def IsModerate : Binary64 → Prop
  | finite _ units => units ≤ twoTo 53 * one
  | _ => False

/-- A natural number up to `2 ^ 53` is a double exactly. -/
theorem ofNat_of_le {n : Nat} (h : n ≤ twoTo 53) : ofNat n = finite false (n * one) :=
  ofRatio_of_le false h

/-- The units of an integer, by its sign and its magnitude. -/
theorem signed_natAbs (i : Int) : signed (decide (i < 0)) (i.natAbs * one) = i * one := by
  rw [signed, Int.natCast_mul]
  by_cases negative : i < 0
  · rw [if_pos (by simpa using negative), ← Int.neg_mul]
    congr 1
    omega
  · rw [if_neg (by simpa using negative)]
    congr 1
    omega

/-- The units of an integer up to `2 ^ 53`. -/
theorem ofInt_of_le {i : Int} (h : i.natAbs ≤ twoTo 53) :
    ∃ negative units, ofInt i = finite negative units ∧ signed negative units = i * one :=
  ⟨decide (i < 0), i.natAbs * one, ofRatio_of_le _ h, signed_natAbs i⟩

/-- What powers a number is not below, its binary logarithm is not below either. -/
private theorem le_log2_of_twoTo_le {k n : Nat} (h : twoTo k ≤ n) : k ≤ n.log2 :=
  (Nat.le_log2 (Nat.ne_of_gt (Nat.lt_of_lt_of_le (twoTo_pos k) h))).2 h

/-- Rounding does not lead below the quotient. -/
private theorem le_roundHalfEven (num den : Nat) : num / den ≤ roundHalfEven num den := by
  simp only [roundHalfEven]
  split
  · exact Nat.le_refl _
  · split <;> omega

/-- A magnitude of `2 ^ 53` or more is not rounded below it. -/
theorem ofRatio_of_ge (negative : Bool) {n : Nat} (h : twoTo 53 ≤ n) :
    ofRatio negative (n * one) 1 = infinity negative ∨
      ∃ units, twoTo 53 * one ≤ units ∧ ofRatio negative (n * one) 1 = finite negative units := by
  have large : twoTo (53 + pointBits) ≤ n * one := by
    rw [twoTo_mul_one]
    exact Nat.mul_le_mul_right one h
  -- The quotient is at least that of the leading bit, which is a multiple of the spacing.
  have positive : n * one ≠ 0 := Nat.ne_of_gt (Nat.lt_of_lt_of_le (twoTo_pos _) large)
  have leading : twoTo (n * one).log2 ≤ n * one := Nat.log2_self_le positive
  have dvd : spacing (n * one) ∣ twoTo (n * one).log2 := twoTo_dvd_twoTo (Nat.sub_le _ _)
  have enough : twoTo 53 * one ≤
      roundHalfEven (n * one) (spacing (n * one)) * spacing (n * one) :=
    calc twoTo 53 * one = twoTo (53 + pointBits) := (twoTo_mul_one 53).symm
      _ ≤ twoTo (n * one).log2 := twoTo_le_twoTo (le_log2_of_twoTo_le large)
      _ = twoTo (n * one).log2 / spacing (n * one) * spacing (n * one) :=
        (Nat.div_mul_cancel dvd).symm
      _ ≤ n * one / spacing (n * one) * spacing (n * one) :=
        Nat.mul_le_mul_right _ (Nat.div_le_div_right leading)
      _ ≤ _ := Nat.mul_le_mul_right _ (le_roundHalfEven _ _)
  simp only [ofRatio, Nat.div_one, Nat.one_mul]
  split
  · exact .inr ⟨_, enough, rfl⟩
  · exact .inl rfl

/-- An integer of greater magnitude is not rounded below that. -/
theorem ofInt_of_gt {i : Int} (h : twoTo 53 < i.natAbs) :
    ofInt i = infinity (i < 0) ∨
      ∃ units, twoTo 53 * one ≤ units ∧ ofInt i = finite (i < 0) units :=
  ofRatio_of_ge _ (Nat.le_of_lt h)

section

variable {limit units size : Nat}

/-- Beyond a limit the sign decides how a value compares with one up to the limit. -/
private theorem signed_le_iff (sign sign' : Bool) (few : units ≤ limit) (beyond : limit < size) :
    (signed sign units ≤ signed sign' size ↔ sign' = false) ∧
      (signed sign' size ≤ signed sign units ↔ sign' = true) := by
  cases sign <;> cases sign' <;> simp [signed] <;> omega

/-- From the limit on it does so for values that are not the same. -/
private theorem signed_lt_iff {sign sign' : Bool} (positive : 0 < limit) (few : units ≤ limit)
    (beyond : limit ≤ size) (apart : ¬ (sign' = sign ∧ size = units)) :
    (signed sign' size < signed sign units ↔ sign' = true) ∧
      (signed sign units < signed sign' size ↔ sign' = false) := by
  cases sign <;> cases sign' <;> simp [signed] at apart ⊢ <;> omega

end

theorem ofInt_natCast (n : Nat) : ofInt n = ofNat n := by
  rw [ofInt, ofNat, Int.natAbs_natCast]
  have positive : decide ((n : Int) < 0) = false := by simp
  rw [positive]

end Binary64

open Binary64

namespace Number

/-- The double of the number is the number itself: it is finite, and an integer has magnitude at
most `2 ^ 53`. -/
def IsExact : Number → Prop
  | integer i => i.natAbs ≤ twoTo 53
  | float x => x.isFinite = true

theorem IsExact.units {n : Number} (h : n.IsExact) :
    ∃ negative units, n.toBinary64 = .finite negative units ∧
      n.units? = some (signed negative units) := by
  cases n with
  | integer i =>
    obtain ⟨negative, units, double, value⟩ := ofInt_of_le h
    exact ⟨negative, units, double, congrArg some value.symm⟩
  | float x =>
    cases x with
    | finite negative units => exact ⟨negative, units, rfl, rfl⟩
    | nan => cases h
    | infinity => cases h

end Number

/-- A finite bound is written as a number of the same value. -/
theorem Assembly.boundNumber_finite (negative : Bool) (units : Nat) :
    ∃ bound, Assembly.boundNumber (.finite negative units) = .number bound ∧
      bound.units? = some (signed negative units) := by
  unfold boundNumber
  by_cases whole : units % one = 0 ∧ units / one ≤ maxInteger
  · have exact : units / one * one = units := Nat.div_mul_cancel (Nat.dvd_of_mod_eq_zero whole.1)
    have value : signed negative (units / one) * one = signed negative units := by
      unfold signed
      split
      · rw [Int.neg_mul, ← Int.natCast_mul, exact]
      · rw [← Int.natCast_mul, exact]
    rw [toInt?, if_pos whole]
    exact ⟨_, rfl, congrArg some value⟩
  · rw [toInt?, if_neg whole]
    exact ⟨_, rfl, rfl⟩

namespace Number

variable {n bound : Number} {x : Binary64} {negative : Bool} {units : Nat}

/-- Comparing with a double is comparing with any number of its value. -/
theorem IsExact.le_iff (h : n.IsExact) (value : bound.units? = some (signed negative units)) :
    (bound.le n = true ↔ n.toBinary64.lt (finite negative units) = false) ∧
      (n.le bound = true ↔ (finite negative units).lt n.toBinary64 = false) := by
  obtain ⟨negative', units', double, value'⟩ := h.units
  constructor
  all_goals
    rw [double, lt, le, value, value']
    simp

/-- An integer beyond `2 ^ 53` that is not rounded to a double up to there compares with it as its
own double does. -/
private theorem le_iff_of_gt {i : Int} (large : twoTo 53 < i.natAbs)
    (few : units ≤ twoTo 53 * one) (apart : ofInt i ≠ finite negative units)
    (value : bound.units? = some (signed negative units)) :
    (bound.le (.integer i) = true ↔ (ofInt i).lt (finite negative units) = false) ∧
      ((Number.integer i).le bound = true ↔ (finite negative units).lt (ofInt i) = false) := by
  have beyond : twoTo 53 * one < i.natAbs * one := Nat.mul_lt_mul_of_pos_right large one_pos
  have isUnits : (Number.integer i).units? = some (signed (i < 0) (i.natAbs * one)) :=
    congrArg some (signed_natAbs i).symm
  have positive : 0 < twoTo 53 * one := Nat.mul_pos (twoTo_pos 53) one_pos
  have rounding := ofInt_of_gt large
  generalize decide (i < 0) = sign at isUnits rounding
  obtain ⟨below, above⟩ := signed_le_iff negative sign few beyond
  rw [le, le, value, isUnits, decide_eq_true_eq, decide_eq_true_eq, below, above]
  rcases rounding with infinite | ⟨units', up, rounded⟩
  · rw [infinite, lt, lt, Bool.not_eq_false']
    exact ⟨Iff.rfl, Iff.rfl⟩
  · rw [rounded] at apart ⊢
    obtain ⟨below', above'⟩ := signed_lt_iff positive few up (by simpa using apart)
    rw [lt, lt, decide_eq_false_iff_not, decide_eq_false_iff_not, below', above',
      Bool.not_eq_true, Bool.not_eq_false]
    exact ⟨Iff.rfl, Iff.rfl⟩

/-- The number compares with a double as its own double does: it is finite, and an integer beyond
`2 ^ 53` does not become that very double. -/
def ComparesWith (x : Binary64) : Number → Prop
  | integer i => i.natAbs ≤ twoTo 53 ∨ ofInt i ≠ x
  | float y => y.isFinite = true

/-- Comparing with a double of magnitude at most `2 ^ 53` is comparing with any number of its value,
but for an integer that becomes the double without being it. -/
theorem ComparesWith.le_iff (h : n.ComparesWith (finite negative units))
    (few : units ≤ twoTo 53 * one) (value : bound.units? = some (signed negative units)) :
    (bound.le n = true ↔ n.toBinary64.lt (finite negative units) = false) ∧
      (n.le bound = true ↔ (finite negative units).lt n.toBinary64 = false) := by
  cases n with
  | integer i =>
    rcases Nat.lt_or_ge (twoTo 53) i.natAbs with large | small
    · exact le_iff_of_gt large few (h.resolve_left (Nat.not_le.2 large)) value
    · have exact : (integer i).IsExact := small
      exact exact.le_iff value
  | float y =>
    have exact : (float y).IsExact := h
    exact exact.le_iff value

/-- A count up to `2 ^ 53` compares with a number as its double does. -/
theorem ComparesWith.le_ofNat_iff {count : Nat} (h : n.ComparesWith (ofNat count))
    (few : count ≤ twoTo 53) :
    ((integer count).le n = true ↔ n.toBinary64.lt (ofNat count) = false) ∧
      (n.le (integer count) = true ↔ (ofNat count).lt n.toBinary64 = false) := by
  rw [ofNat_of_le few] at h ⊢
  refine h.le_iff (Nat.mul_le_mul_right one few) ?_
  rw [units?, signed, if_neg Bool.false_ne_true, Int.natCast_mul]

end Number

namespace Number.IsExact

variable {n : Number} {x : Binary64}

/-- Comparing with what a bound is written as is comparing with the bound. -/
theorem exists_boundNumber (h : n.IsExact) (finite : x.isFinite = true) :
    ∃ bound, Assembly.boundNumber x = .number bound ∧
      (bound.le n = true ↔ n.toBinary64.lt x = false) ∧
      (n.le bound = true ↔ x.lt n.toBinary64 = false) := by
  cases x with
  | finite negative units =>
    obtain ⟨bound, written, value⟩ := Assembly.boundNumber_finite negative units
    exact ⟨bound, written, h.le_iff value⟩
  | nan => cases finite
  | infinity => cases finite

/-- A number that is not less than a lower bound is at least what the bound is written as. -/
theorem ge_of_not_lt (h : n.IsExact) (finite : x.isFinite = true)
    (notLess : n.toBinary64.lt x = false) :
    ∃ bound, Assembly.boundNumber x = .number bound ∧ bound.le n = true := by
  obtain ⟨bound, written, lower, -⟩ := h.exists_boundNumber finite
  exact ⟨bound, written, lower.2 notLess⟩

/-- A number that an upper bound is not less than is at most what the bound is written as. -/
theorem le_of_not_lt (h : n.IsExact) (finite : x.isFinite = true)
    (notLess : x.lt n.toBinary64 = false) :
    ∃ bound, Assembly.boundNumber x = .number bound ∧ n.le bound = true := by
  obtain ⟨bound, written, -, upper⟩ := h.exists_boundNumber finite
  exact ⟨bound, written, upper.2 notLess⟩

end Number.IsExact

/-- Natural numbers up to `2 ^ 53` compare as their doubles do. -/
theorem Number.le_iff_not_lt_ofNat {m n : Nat} (hm : m ≤ twoTo 53) (hn : n ≤ twoTo 53) :
    (Number.integer m).le (.integer n) = true ↔ (ofNat n).lt (ofNat m) = false := by
  rw [ofNat_of_le hm, ofNat_of_le hn, lt]
  simp [le, units?, signed]

/-! ### Data -/

namespace Json

mutual

/-- All numbers in a value are exact, and its sizes are natural numbers up to `2 ^ 53`. -/
def Exact : Json → Prop
  | number n => n.IsExact
  | string s => s.length ≤ twoTo 53
  | array items => items.length ≤ twoTo 53 ∧ ExactItems items
  | object fields => fields.length ≤ twoTo 53 ∧ ExactFields fields
  | _ => True

/-- All items are exact. -/
def ExactItems : List Json → Prop
  | [] => True
  | j :: rest => Exact j ∧ ExactItems rest

/-- All keys and values are exact. -/
def ExactFields : List (String × Json) → Prop
  | [] => True
  | (key, j) :: rest => key.length ≤ twoTo 53 ∧ Exact j ∧ ExactFields rest

end

theorem ExactItems.of_mem {items : List Json} (h : ExactItems items) {j : Json} (mem : j ∈ items) :
    j.Exact := by
  induction items with
  | nil => cases mem
  | cons first rest ih =>
    rw [ExactItems] at h
    rcases List.mem_cons.1 mem with rfl | mem
    · exact h.1
    · exact ih h.2 mem

theorem ExactFields.of_mem {fields : Fields} (h : ExactFields fields) {entry : String × Json}
    (mem : entry ∈ fields) : (Json.string entry.1).Exact ∧ entry.2.Exact := by
  induction fields with
  | nil => cases mem
  | cons first rest ih =>
    rw [ExactFields] at h
    rcases List.mem_cons.1 mem with rfl | mem
    · exact ⟨by rw [Exact]; exact h.1, h.2.1⟩
    · exact ih h.2.2 mem

end Json

end SchemaBridge
