import Mathlib.Data.List.Induction
import Mathlib.Logic.Relation
import SchemaBridge.Proofs.Compile.Acceptance
import SchemaBridge.Proofs.Describe.Passing
import SchemaBridge.Proofs.Number.Exact

/-!
# Documents whose lists of allowed values add nothing

The validator lets an allowed value pass before it looks at anything else, while the compiler reads
the list of allowed values for `null` and for literals only. The two agree on a document if the list
adds nothing that the compiler would not see. This is kept when the modifiers of a document are
taken off one by one, and the rules of the document are then the constraints that data keeps.

## Main definitions

* `Describe.SameBody` : two documents only differ in their flags and allowed values.
* `Describe.Inside` : the documents directly inside a document.
* `Describe.Consistent`, `Describe.Coherent` : what is asked of a document, and of all inside it.

## Main results

* `Describe.keptBy_constraints` : the constraints of the rules are kept by data that breaks no rule.
* `Describe.Suits.kept` : data that suits a consistent document keeps its constraints.
* `Describe.Consistent.peel`, `Describe.Suits.peel` : a layer may be taken off.
-/

namespace SchemaBridge.Describe

variable {doc other data : Json}

/-! ### Documents of the same body -/

/-- Two documents say the same, but for their flags and their allowed values. -/
def SameBody (doc other : Json) : Prop :=
  ∀ key, key ≠ "flags" → key ≠ "allow" → other.get? key = doc.get? key

namespace SameBody

variable (h : SameBody doc other)
include h

theorem type?_eq : type? other = type? doc := by
  rw [type?, type?, h "type" (by decide) (by decide)]

theorem typeWord_eq : typeWord other = typeWord doc := by rw [typeWord, typeWord, h.type?_eq]

theorem describesRecord_eq : describesRecord other = describesRecord doc := by
  rw [describesRecord, describesRecord, h.type?_eq, h "patterns" (by decide) (by decide)]

theorem describesTuple_eq : describesTuple other = describesTuple doc := by
  rw [describesTuple, describesTuple, h.type?_eq, h "ordered" (by decide) (by decide)]

theorem rules_eq : rules other = rules doc := by
  rw [rules, rules, h "rules" (by decide) (by decide)]

theorem constraints_eq : constraints other = constraints doc := by
  rw [constraints, constraints, h.rules_eq]

theorem keysOf_eq : keysOf other = keysOf doc := by
  rw [keysOf, keysOf, h "keys" (by decide) (by decide)]

theorem partsOf_eq {field : String} (flags : field ≠ "flags") (allow : field ≠ "allow") :
    partsOf other field = partsOf doc field := by
  rw [partsOf, partsOf, h field flags allow]

theorem ordered_eq : partsOf other "ordered" = partsOf doc "ordered" :=
  h.partsOf_eq (by decide) (by decide)

theorem items_eq : partsOf other "items" = partsOf doc "items" :=
  h.partsOf_eq (by decide) (by decide)

theorem alternativesOf_eq : alternativesOf other = alternativesOf doc := by
  rw [alternativesOf, alternativesOf, h.partsOf_eq (by decide) (by decide)]

theorem ruleOf?_eq : ruleOf? other = ruleOf? doc := by
  rw [ruleOf?, ruleOf?, h.partsOf_eq (by decide) (by decide)]

theorem itemPasses_iff {position : Nat} {value : Json} :
    ItemPasses other position value ↔ ItemPasses doc position value := by
  rw [ItemPasses, ItemPasses, h.ordered_eq, h.items_eq, h.describesTuple_eq]

theorem partsPass (passes : PartsPass doc data) : PartsPass other data where
  record := by
    rw [h.typeWord_eq, h.describesRecord_eq, h.ruleOf?_eq]
    exact passes.record
  keys := by
    rw [h.typeWord_eq, h.describesRecord_eq, h.keysOf_eq]
    exact passes.keys
  items := by
    rw [h.typeWord_eq, h.ordered_eq]
    intro isArray values same
    obtain ⟨enough, each⟩ := passes.items isArray values same
    exact ⟨enough, fun position value isItem => h.itemPasses_iff.2 (each position value isItem)⟩
  alternatives := by
    rw [h.typeWord_eq, h.alternativesOf_eq]
    exact passes.alternatives

/-- A value that fits a document fits one of the same body that is not exclusive either. -/
theorem fits (notExclusive : isExclusive other = false) (fits : Fits doc data) :
    Fits other data where
  notExclusive := notExclusive
  isType := h.typeWord_eq ▸ fits.isType
  rules := h.rules_eq ▸ fits.rules
  parts := h.partsPass fits.parts

end SameBody

/-! ### Flags and allowed values that are taken away -/

theorem get?_clearFlag (doc : Json) (name : String) {key : String} (other : key ≠ "flags") :
    (clearFlag doc name).get? key = doc.get? key := by
  unfold clearFlag
  split
  · split
    · exact Table.get?_put_of_ne _ _ other.symm
    · rfl
  · rfl

theorem flag?_clearFlag (doc : Json) (name key : String) :
    flag? (clearFlag doc name) key = if key = name then none else flag? doc key := by
  -- Without an object of flags there is nothing to take away.
  have unchanged (flagless : flag? doc key = none) :
      flag? doc key = if key = name then none else flag? doc key := by rw [flagless, ite_self]
  unfold clearFlag
  split
  · rename_i fields
    split
    · rename_i flags found
      have before : flag? (.object fields) key = Table.get? flags key := by
        rw [flag?, Json.get?, found]
        rfl
      rw [before, flag?, Json.get?, Table.get?_put_self]
      exact Table.get?_swapRemove flags name key
    · rename_i noFlags
      refine unchanged ?_
      rw [flag?, Json.get?]
      cases found : Table.get? fields "flags" with
      | none => rfl
      | some flags =>
        cases flags with
        | object flags => exact absurd found (noFlags flags)
        | null | bool | number | string | array => rfl
  · rename_i notObject
    refine unchanged ?_
    cases doc with
    | object fields => exact absurd rfl (notObject fields)
    | null | bool | number | string | array => rfl

theorem get?_clearNulls (doc : Json) {key : String} (other : key ≠ "allow") :
    (clearNulls doc).get? key = doc.get? key := by
  unfold clearNulls
  split
  · split
    · exact Table.get?_put_of_ne _ _ other.symm
    · rfl
  · rfl

theorem allowed_clearNulls (doc : Json) : allowed (clearNulls doc) = nonNullAllowed doc := by
  have unchanged (free : allowed doc = []) : allowed doc = nonNullAllowed doc := by
    rw [nonNullAllowed, free, List.filter_nil]
  unfold clearNulls
  split
  · rename_i fields
    split
    · rename_i values found
      rw [nonNullAllowed, allowed, allowed, Json.get?, Json.get?, found, Table.get?_put_self]
      rfl
    · rename_i noValues
      refine unchanged ?_
      rw [allowed, Json.get?]
      cases found : Table.get? fields "allow" with
      | none => rfl
      | some values =>
        cases values with
        | array values => exact absurd found (noValues values)
        | null | bool | number | string | object => rfl
  · rename_i notObject
    refine unchanged ?_
    cases doc with
    | object fields => exact absurd rfl (notObject fields)
    | null | bool | number | string | array => rfl

theorem sameBody_clearFlag (doc : Json) (name : String) : SameBody doc (clearFlag doc name) :=
  fun _ notFlags _ => get?_clearFlag doc name notFlags

theorem sameBody_clearNulls (doc : Json) : SameBody doc (clearNulls doc) :=
  fun _ _ notAllow => get?_clearNulls doc notAllow

theorem allowed_clearFlag (doc : Json) (name : String) :
    allowed (clearFlag doc name) = allowed doc := by
  rw [allowed, allowed, get?_clearFlag doc name (by decide)]

theorem flag?_clearNulls (doc : Json) (name : String) :
    flag? (clearNulls doc) name = flag? doc name := by
  rw [flag?, flag?, get?_clearNulls doc (by decide)]

theorem isExclusive_clearFlag (doc : Json) :
    isExclusive (clearFlag doc "presence") = isExclusive doc := by
  rw [isExclusive, isExclusive, flagIsSet, flagIsSet, flag?_clearFlag, if_neg (by decide)]

theorem isExclusive_clearNulls (doc : Json) : isExclusive (clearNulls doc) = isExclusive doc := by
  rw [isExclusive, isExclusive, flagIsSet, flagIsSet, flag?_clearNulls]

/-! ### Constraints of the rules -/

/-- What a rule says about the constraints is written with its limit, and never with a length. -/
private theorem applyRule_cases (c : Constraints) (rule : String × Option Json) :
    ((applyRule c rule).min = c.min ∨
      rule.1 ∈ ["min", "length"] ∧ (applyRule c rule).min = ruleLimit? rule.2) ∧
    ((applyRule c rule).max = c.max ∨
      rule.1 ∈ ["max", "length"] ∧ (applyRule c rule).max = ruleLimit? rule.2) ∧
    (applyRule c rule).minLength = c.minLength ∧ (applyRule c rule).maxLength = c.maxLength := by
  unfold applyRule
  split <;> simp

/-- The bounds of the constraints are the limits of rules, and there are no lengths. -/
theorem constraints_bounds (doc : Json) :
    (∀ x ∈ (constraints doc).min, ∃ rule ∈ rules doc, rule.1 ∈ ["min", "length"] ∧
      ruleLimit? rule.2 = some x) ∧
    (∀ x ∈ (constraints doc).max, ∃ rule ∈ rules doc, rule.1 ∈ ["max", "length"] ∧
      ruleLimit? rule.2 = some x) ∧
    (constraints doc).minLength = none ∧ (constraints doc).maxLength = none := by
  rw [constraints]
  generalize rules doc = all
  induction all using List.reverseRecOn with
  | nil => exact ⟨nofun, nofun, rfl, rfl⟩
  | append_singleton all rule ih =>
    obtain ⟨lower, upper, noMin, noMax⟩ := ih
    rw [List.foldl_append, List.foldl_cons, List.foldl_nil]
    obtain ⟨min, max, minLength, maxLength⟩ := applyRule_cases (all.foldl applyRule .empty) rule
    refine ⟨fun x set => ?_, fun x set => ?_, minLength.trans noMin, maxLength.trans noMax⟩
    · rcases min with same | ⟨named, same⟩ <;> rw [same] at set
      · obtain ⟨rule, mem, limit⟩ := lower x set
        exact ⟨rule, List.mem_append_left _ mem, limit⟩
      · exact ⟨rule, List.mem_append_right _ (List.mem_singleton_self _), named, set⟩
    · rcases max with same | ⟨named, same⟩ <;> rw [same] at set
      · obtain ⟨rule, mem, limit⟩ := upper x set
        exact ⟨rule, List.mem_append_left _ mem, limit⟩
      · exact ⟨rule, List.mem_append_right _ (List.mem_singleton_self _), named, set⟩

private theorem not_lt_of_equal {x y : Binary64} (h : x.equal y = true) :
    x.lt y = false ∧ y.lt x = false := by
  cases x <;> cases y <;> simp_all [Binary64.equal, Binary64.lt]

section Rules

variable {size limit : Binary64} {rule : String × Option Json}
  (kept : broken? size rule = none) (isLimit : ruleLimit? rule.2 = some limit)
include kept isLimit

/-- A size that breaks no rule is not below a lower limit. -/
theorem not_lt_of_kept (named : rule.1 ∈ ["min", "length"]) : size.lt limit = false := by
  obtain ⟨name, args⟩ := rule
  rw [broken?, isLimit, Option.bind_some] at kept
  simp only [List.mem_cons, List.not_mem_nil, or_false] at named
  rcases named with rfl | rfl
  · simpa using kept
  · exact (not_lt_of_equal (by simpa using kept)).1

/-- A size that breaks no rule is not above an upper limit. -/
theorem not_gt_of_kept (named : rule.1 ∈ ["max", "length"]) : limit.lt size = false := by
  obtain ⟨name, args⟩ := rule
  rw [broken?, isLimit, Option.bind_some] at kept
  simp only [List.mem_cons, List.not_mem_nil, or_false] at named
  rcases named with rfl | rfl
  · simpa using kept
  · exact (not_lt_of_equal (by simpa using kept)).2

end Rules

open Draft07 in
/-- What bounds are compared with is the size that rules look at, and exact if the value is. -/
private theorem magnitude_exact {n : Number} (exact : data.Exact)
    (measured : magnitude? data = some n) :
    Describe.size? data = some n.toBinary64 ∧ n.IsExact := by
  cases data with
  | number m =>
    obtain rfl := Option.some.inj measured
    rw [Json.Exact] at exact
    exact ⟨rfl, exact⟩
  | string | array | object =>
    obtain rfl := Option.some.inj measured
    rw [Json.Exact] at exact
    refine ⟨?_, by first | exact exact | exact exact.1⟩
    rw [Number.toBinary64, Binary64.ofInt_natCast]
    rfl
  | null | bool => cases measured

/-- The constraints of the rules are kept by data that breaks no rule. -/
theorem keptBy_constraints (exact : data.Exact)
    (finite : ∀ rule ∈ rules doc, ∀ limit ∈ ruleLimit? rule.2, limit.isFinite = true)
    (kept : ∀ size ∈ size? data, ∀ rule ∈ rules doc, broken? size rule = none) :
    (constraints doc).KeptBy data := by
  obtain ⟨lower, upper, noMin, noMax⟩ := constraints_bounds doc
  refine ⟨fun x set n measured => ?_, fun x set n measured => ?_, fun _ set => ?_, fun _ set => ?_⟩
  · obtain ⟨rule, mem, named, isLimit⟩ := lower x set
    obtain ⟨size, isExact⟩ := magnitude_exact exact measured
    exact isExact.ge_of_not_lt (finite rule mem x isLimit)
      (not_lt_of_kept (kept _ size rule mem) isLimit named)
  · obtain ⟨rule, mem, named, isLimit⟩ := upper x set
    obtain ⟨size, isExact⟩ := magnitude_exact exact measured
    exact isExact.le_of_not_lt (finite rule mem x isLimit)
      (not_gt_of_kept (kept _ size rule mem) isLimit named)
  · cases noMin.symm.trans set
  · cases noMax.symm.trans set

/-! ### Consistent documents -/

/-- A document directly inside a document. -/
inductive Inside (doc : Json) : Json → Prop where
  | key {name : String} {part : Json} (mem : (name, part) ∈ keysOf doc) : Inside doc part
  | alternative {part : Json} (mem : part ∈ alternativesOf doc) : Inside doc part
  | position {part : Json} (mem : part ∈ partsOf doc "ordered") : Inside doc part
  | item {part : Json} (mem : part ∈ partsOf doc "items") : Inside doc part
  | rule {part : Json} (isRule : ruleOf? doc = some part) : Inside doc part

/-- The list of allowed values adds nothing that the compiler would not see. -/
structure Consistent (doc : Json) : Prop where
  noDefault : hasDefault doc = false
  /-- Beside others, allowed values are `null` or fit anyway. -/
  beside : isExclusive doc = false → ∀ value, Json.among (allowed doc) value = true →
    value = .null ∨ Fits doc value
  /-- Allowed values that are the only ones are other than `null`, and keep the constraints. -/
  only : isExclusive doc = true → ∀ value, Json.among (allowed doc) value = true →
    value ≠ .null ∧ (constraints doc).KeptBy value
  finite : ∀ rule ∈ rules doc, ∀ limit ∈ ruleLimit? rule.2, limit.isFinite = true

/-- A document and all documents inside it, at any depth, are consistent. -/
def Coherent (doc : Json) : Prop := ∀ part, Relation.ReflTransGen Inside doc part → Consistent part

theorem Coherent.consistent (h : Coherent doc) : Consistent doc := h doc .refl

theorem Coherent.inside {part : Json} (h : Coherent doc) (inside : Inside doc part) :
    Coherent part := fun other further => h other (.head inside further)

theorem Coherent.of_inside (here : Consistent doc)
    (inside : ∀ part, Inside doc part → Coherent part) : Coherent doc := by
  intro part reaches
  rcases reaches.cases_head with rfl | ⟨first, step, rest⟩
  · exact here
  · exact inside first step part rest

/-- Data that suits a consistent document keeps its constraints. -/
theorem Suits.kept (h : Suits doc data) (consistent : Consistent doc) (exact : data.Exact) :
    (constraints doc).KeptBy data := by
  have of_fits (fits : Fits doc data) : (constraints doc).KeptBy data :=
    keptBy_constraints exact consistent.finite fits.rules
  rcases h.fits with isAllowed | fits
  · cases exclusive : isExclusive doc with
    | true => exact (consistent.only exclusive data isAllowed).2
    | false =>
      rcases consistent.beside exclusive data isAllowed with rfl | fits
      · exact Constraints.keptBy_null _
      · exact of_fits fits
  · exact of_fits fits

/-! ### Layers that are taken off -/

theorem SameBody.inside {part : Json} (h : SameBody doc other) (inside : Inside other part) :
    Inside doc part := by
  cases inside with
  | key mem => exact .key (h.keysOf_eq ▸ mem)
  | alternative mem => exact .alternative (h.alternativesOf_eq ▸ mem)
  | position mem => exact .position (h.ordered_eq ▸ mem)
  | item mem => exact .item (h.items_eq ▸ mem)
  | rule isRule => exact .rule (h.ruleOf?_eq ▸ isRule)

/-- What is left of a document without a default when its outermost layer is taken off. -/
theorem peel?_cases {inner : Json} (peels : peel? doc = some inner)
    (noDefault : hasDefault doc = false) :
    mayBeAbsent doc = true ∧ inner = clearFlag doc "presence" ∨
      mayBeAbsent doc = false ∧ admitsNull doc = true ∧ inner = clearNulls doc := by
  unfold peel? at peels
  split at peels
  · exact .inl ⟨‹_›, (Option.some.inj peels).symm⟩
  · split at peels
    · exact .inr ⟨Bool.eq_false_iff.2 ‹_›, ‹_›, (Option.some.inj peels).symm⟩
    · rw [if_neg (Bool.eq_false_iff.1 noDefault)] at peels
      cases peels

theorem among_of_among_filter {values : List Json} {keeps : Json → Bool}
    (h : Json.among (values.filter keeps) data = true) : Json.among values data = true := by
  obtain ⟨value, mem, same⟩ := List.any_eq_true.1 h
  exact List.any_eq_true.2 ⟨value, (List.mem_filter.1 mem).1, same⟩

section Peel

variable {inner : Json} (peels : peel? doc = some inner) (consistent : Consistent doc)
include peels consistent

theorem sameBody_of_peel? : SameBody doc inner := by
  rcases peel?_cases peels consistent.noDefault with ⟨-, rfl⟩ | ⟨-, -, rfl⟩
  · exact sameBody_clearFlag doc "presence"
  · exact sameBody_clearNulls doc

theorem isExclusive_of_peel? : isExclusive inner = isExclusive doc := by
  rcases peel?_cases peels consistent.noDefault with ⟨-, rfl⟩ | ⟨-, -, rfl⟩
  · exact isExclusive_clearFlag doc
  · exact isExclusive_clearNulls doc

theorem among_of_peel? (h : Json.among (allowed inner) data = true) :
    Json.among (allowed doc) data = true := by
  rcases peel?_cases peels consistent.noDefault with ⟨-, rfl⟩ | ⟨-, -, rfl⟩
  · rwa [allowed_clearFlag] at h
  · rw [allowed_clearNulls] at h
    exact among_of_among_filter h

/-- A consistent document is left when a layer is taken off. -/
theorem Consistent.peel : Consistent inner := by
  have body := sameBody_of_peel? peels consistent
  have exclusive := isExclusive_of_peel? peels consistent
  refine ⟨?_, fun notExclusive value isAllowed => ?_, fun isExclusive value isAllowed => ?_, ?_⟩
  · have noDefault := consistent.noDefault
    rw [hasDefault] at noDefault ⊢
    rcases peel?_cases peels consistent.noDefault with ⟨-, rfl⟩ | ⟨-, -, rfl⟩
    · rwa [flag?_clearFlag, if_neg (by decide)]
    · rwa [flag?_clearNulls]
  · exact (consistent.beside (exclusive.symm.trans notExclusive) value
      (among_of_peel? peels consistent isAllowed)).imp_right (body.fits notExclusive)
  · rw [body.constraints_eq]
    exact consistent.only (exclusive.symm.trans isExclusive) value
      (among_of_peel? peels consistent isAllowed)
  · rw [body.rules_eq]
    exact consistent.finite

/-- Data that suits a document suits what is left when a layer is taken off, but for `null` where
the layer admits it. -/
theorem Suits.peel (h : Suits doc data) :
    Suits inner data ∨ data = .null ∧ mayBeAbsent doc = false ∧ admitsNull doc = true := by
  have body := sameBody_of_peel? peels consistent
  have exclusive := isExclusive_of_peel? peels consistent
  have stillFits (fits : Fits doc data) : Fits inner data :=
    body.fits (exclusive.trans fits.notExclusive) fits
  rcases peel?_cases peels consistent.noDefault with ⟨-, rfl⟩ | ⟨present, admits, rfl⟩
  · refine .inl ⟨?_, ?_⟩
    · rw [forbidsPresence, flagText?, flag?_clearFlag, if_pos rfl]
      rfl
    · rw [allowed_clearFlag]
      exact h.fits.imp_right stillFits
  · have notForbidden : forbidsPresence (clearNulls doc) = false := by
      rw [forbidsPresence, flagText?, flag?_clearNulls]
      exact h.notForbidden
    rcases h.fits with isAllowed | fits
    · have notExclusive : isExclusive doc = false := by
        have := (Bool.and_eq_true_iff.1 admits).1
        simpa using this
      exact (consistent.beside notExclusive data isAllowed).elim
        (fun isNull => .inr ⟨isNull, present, admits⟩)
        fun fits => .inl ⟨notForbidden, .inr (stillFits fits)⟩
    · exact .inl ⟨notForbidden, .inr (stillFits fits)⟩

theorem Coherent.peel (h : Coherent doc) : Coherent inner :=
  .of_inside (consistent.peel peels) fun _ inside =>
    h.inside ((sameBody_of_peel? peels consistent).inside inside)

end Peel

end SchemaBridge.Describe
