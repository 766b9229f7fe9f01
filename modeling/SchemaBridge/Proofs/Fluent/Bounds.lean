import SchemaBridge.Proofs.Compile.Bounds
import SchemaBridge.Proofs.Draft07.Structures
import SchemaBridge.Proofs.Fluent.Repeating
import SchemaBridge.Proofs.Number.Exact
import SchemaBridge.Proofs.Vendors.Failures

/-!
# Bounds of one layer

The bounds of a layer are read twice. The validator compares the size of the data with the bound,
and looks at a count only where there is no bound. The compiler writes both, the count last, and on
objects and records it writes the count under keywords that mean nothing there. So validator and
document agree as long as no count stands beside a bound that says something else, but for the
counts of objects, which only the validator looks at. The validator also compares doubles where the
document compares numbers.

## Main definitions

* `Draft07.BoundsHold` : the bound keywords of a document hold for a value.
* `Constraints.Moderate` : bounds and counts of magnitude at most `2 ^ 53`.
* `Constraints.Compared` : a number compares with all of them as its double does.
* `Constraints.ReadAlike` : bounds and counts that validator and compiler read alike.
* `Constraints.CountsAdmit` : the counts that only the validator looks at.
* `Shape.measured` : the shapes whose bounds are about the data itself.

## Main results

* `Constraints.admits_iff` : what the validator admits, and what the document says.
* `Fluent.get?_compile_of_bound` : the bound keywords of a compiled document.
* `Fluent.parsed_iff_boundsHold` : the validator accepts data exactly when the bound keywords and
  the counts of an object hold.
-/

namespace SchemaBridge

open Draft07 Binary64

/-- The bound keywords of a document hold for a value. -/
def Draft07.BoundsHold (document data : Json) : Prop :=
  ∀ keyword ∈ boundKeywords, ∀ value, document.get? keyword = some value →
    assertion keyword value data = true

/-! ### What is compared -/

/-- The number that the bounds of a family are compared with. -/
def BoundsFamily.measure? : BoundsFamily → Json → Option Number
  | value, .number n => some n
  | length, .string s => some (.integer s.length)
  | items, .array values => some (.integer values.length)
  | properties, .object fields => some (.integer fields.length)
  | _, _ => none

/-- A value, as a lower bound, is at most the number. -/
def Json.IsAtMost (value : Json) (n : Number) : Prop :=
  ∃ bound, value = .number bound ∧ bound.le n = true

/-- A value, as an upper bound, is at least the number. -/
def Json.IsAtLeast (value : Json) (n : Number) : Prop :=
  ∃ bound, value = .number bound ∧ n.le bound = true

namespace Json

variable {n : Number} {x : Binary64} {count : Nat}

theorem isAtMost_boundNumber (compares : n.ComparesWith x) (moderate : x.IsModerate) :
    (Assembly.boundNumber x).IsAtMost n ↔ n.toBinary64.lt x = false := by
  cases x with
  | finite negative units =>
    obtain ⟨bound, written, value⟩ := Assembly.boundNumber_finite negative units
    rw [IsAtMost, written, ← (compares.le_iff moderate value).1]
    simp
  | nan | infinity => cases moderate

theorem isAtLeast_boundNumber (compares : n.ComparesWith x) (moderate : x.IsModerate) :
    (Assembly.boundNumber x).IsAtLeast n ↔ x.lt n.toBinary64 = false := by
  cases x with
  | finite negative units =>
    obtain ⟨bound, written, value⟩ := Assembly.boundNumber_finite negative units
    rw [IsAtLeast, written, ← (compares.le_iff moderate value).2]
    simp
  | nan | infinity => cases moderate

theorem isAtMost_ofNat (compares : n.ComparesWith (.ofNat count)) (few : count ≤ twoTo 53) :
    (Json.ofNat count).IsAtMost n ↔ n.toBinary64.lt (.ofNat count) = false := by
  rw [← (compares.le_ofNat_iff few).1]
  exact ⟨fun ⟨_, same, le⟩ => by cases same; exact le, fun le => ⟨_, rfl, le⟩⟩

theorem isAtLeast_ofNat (compares : n.ComparesWith (.ofNat count)) (few : count ≤ twoTo 53) :
    (Json.ofNat count).IsAtLeast n ↔ (Binary64.ofNat count).lt n.toBinary64 = false := by
  rw [← (compares.le_ofNat_iff few).2]
  exact ⟨fun ⟨_, same, le⟩ => by cases same; exact le, fun le => ⟨_, rfl, le⟩⟩

end Json

namespace Constraints

variable {c : Constraints} {family : BoundsFamily} {data : Json} {n : Number}

/-- The bounds of a record are finite, and bounds and counts have magnitude at most `2 ^ 53`. -/
structure Moderate (c : Constraints) : Prop where
  min : ∀ bound ∈ c.min, bound.IsModerate
  max : ∀ bound ∈ c.max, bound.IsModerate
  minLength : ∀ count ∈ c.minLength, count ≤ twoTo 53
  maxLength : ∀ count ∈ c.maxLength, count ≤ twoTo 53

/-- A number compares with all bounds and counts of a record as its double does. -/
structure Compared (n : Number) (c : Constraints) : Prop where
  min : ∀ bound ∈ c.min, n.ComparesWith bound
  max : ∀ bound ∈ c.max, n.ComparesWith bound
  minLength : ∀ count ∈ c.minLength, n.ComparesWith (.ofNat count)
  maxLength : ∀ count ∈ c.maxLength, n.ComparesWith (.ofNat count)

/-- Bounds and counts that are written under the same keyword, of which it does not matter for a
size who reads them: a bound beside a count says the same of it. -/
structure ReadAlike (family : BoundsFamily) (n : Number) (c : Constraints) : Prop where
  lower : family ∈ [.length, .items] → ∀ bound ∈ c.min, ∀ count ∈ c.minLength,
    n.toBinary64.lt bound = n.toBinary64.lt (.ofNat count)
  upper : family ∈ [.length, .items] → ∀ bound ∈ c.max, ∀ count ∈ c.maxLength,
    bound.lt n.toBinary64 = (ofNat count).lt n.toBinary64

/-- The counts that stand without a bound admit the number of properties, if the value is an object.
The document does not state them. -/
def CountsAdmit (c : Constraints) (data : Json) : Prop :=
  ∀ fields, data = .object fields →
    (c.min = none → ∀ count ∈ c.minLength, count ≤ fields.length) ∧
      (c.max = none → ∀ count ∈ c.maxLength, fields.length ≤ count)

/-- What a record says under the bound keywords of a family holds for a value. -/
def HoldsAs (c : Constraints) (family : BoundsFamily) (data : Json) : Prop :=
  ∀ keyword ∈ boundKeywords, ∀ value, c.writtenAt family keyword = some value →
    assertion keyword value data = true

/-- Counts that are written under another keyword than the bounds say nothing about the value. -/
private theorem assertion_of_count (measured : family.measure? data = some n) {keyword : String}
    {value : Json} (counts : c.countAt family keyword = some value)
    (other : keyword ≠ family.keywords.1 ∧ keyword ≠ family.keywords.2) :
    assertion keyword value data = true := by
  have isCount : keyword = family.countKeywords.1 ∨ keyword = family.countKeywords.2 := by
    by_contra neither
    obtain ⟨notLower, notUpper⟩ := not_or.1 neither
    rw [countAt, if_neg notLower, if_neg notUpper] at counts
    cases counts
  -- Counts that do not go with the bounds are written as those of a text.
  cases family with
  | length | items => exact absurd isCount (not_or.2 other)
  | value | properties =>
    rcases isCount with rfl | rfl <;> cases data <;> first | rfl | cases measured

/-- Of what a record says, only the two keywords of the family concern the value. -/
theorem holdsAs_iff (measured : family.measure? data = some n) :
    c.HoldsAs family data ↔
      (∀ value, c.writtenAt family family.keywords.1 = some value → value.IsAtMost n) ∧
        ∀ value, c.writtenAt family family.keywords.2 = some value → value.IsAtLeast n := by
  have isLower : family.keywords.1 ∈ ["minimum", "minLength", "minItems", "minProperties"] := by
    cases family <;> decide
  have isUpper : family.keywords.2 ∈ ["maximum", "maxLength", "maxItems", "maxProperties"] := by
    cases family <;> decide
  have areBounds : family.keywords.1 ∈ boundKeywords ∧ family.keywords.2 ∈ boundKeywords := by
    cases family <;> decide
  have measures : Draft07.measure? family.keywords.1 data = some n ∧
      Draft07.measure? family.keywords.2 data = some n := by
    cases family <;> cases data <;> cases measured <;> exact ⟨rfl, rfl⟩
  constructor
  · intro holds
    exact ⟨fun value written => (assertion_lower_iff isLower).1
        (holds _ areBounds.1 value written) n measures.1,
      fun value written => (assertion_upper_iff isUpper).1
        (holds _ areBounds.2 value written) n measures.2⟩
  · rintro ⟨lower, upper⟩ keyword isBound value written
    by_cases first : keyword = family.keywords.1
    · subst first
      refine (assertion_lower_iff isLower).2 fun m measured' => ?_
      obtain rfl := Option.some.inj (measures.1.symm.trans measured')
      exact lower value written
    by_cases second : keyword = family.keywords.2
    · subst second
      refine (assertion_upper_iff isUpper).2 fun m measured' => ?_
      obtain rfl := Option.some.inj (measures.2.symm.trans measured')
      exact upper value written
    rw [writtenAt_eq _ isBound, boundAt, if_neg first, if_neg second, Option.or_none] at written
    exact assertion_of_count measured written ⟨first, second⟩

/-! ### Bounds and counts beside each other -/

theorem writtenAt_lower (c : Constraints) (family : BoundsFamily) :
    c.writtenAt family family.keywords.1 =
      (if family ∈ [.length, .items] then c.minLength.map Json.ofNat else none).or
        (c.min.map Assembly.boundNumber) := by
  rw [writtenAt_eq _ (by cases family <;> decide)]
  cases family <;> rfl

theorem writtenAt_upper (c : Constraints) (family : BoundsFamily) :
    c.writtenAt family family.keywords.2 =
      (if family ∈ [.length, .items] then c.maxLength.map Json.ofNat else none).or
        (c.max.map Assembly.boundNumber) := by
  rw [writtenAt_eq _ (by cases family <;> decide)]
  cases family <;> rfl

section

variable {bound : Option Binary64} {count : Option Nat} {holds : Json → Prop} {ok : Binary64 → Prop}

/-- A count that is written over a bound and a bound that is read before a count come to the same,
if they say the same where both are set. -/
private theorem written_over_iff
    (bounds : ∀ x ∈ bound, holds (Assembly.boundNumber x) ↔ ok x)
    (counts : ∀ m ∈ count, holds (.ofNat m) ↔ ok (.ofNat m))
    (alike : ∀ x ∈ bound, ∀ m ∈ count, ok x ↔ ok (.ofNat m)) :
    (∀ value, (count.map Json.ofNat).or (bound.map Assembly.boundNumber) = some value →
      holds value) ↔ ∀ x ∈ bound.or (count.map Binary64.ofNat), ok x := by
  cases bound with
  | none =>
    cases count with
    | none => exact iff_of_true nofun nofun
    | some m =>
      rw [Option.map_none, Option.or_none, Option.none_or, Option.map_some, Option.map_some]
      simp only [Option.some.injEq, forall_eq', Option.mem_some_iff]
      exact counts m rfl
  | some x =>
    cases count with
    | none => simpa using bounds x rfl
    | some m => simpa using (counts m rfl).trans (alike x rfl m rfl).symm

/-- A count that is not written is asked for beside what is written, if it stands without a
bound. -/
private theorem written_beside_iff {admits : Nat → Prop}
    (bounds : ∀ x ∈ bound, holds (Assembly.boundNumber x) ↔ ok x)
    (counts : ∀ m ∈ count, admits m ↔ ok (.ofNat m)) :
    ((∀ value, bound.map Assembly.boundNumber = some value → holds value) ∧
        (bound = none → ∀ m ∈ count, admits m)) ↔
      ∀ x ∈ bound.or (count.map Binary64.ofNat), ok x := by
  cases bound with
  | none =>
    rw [Option.none_or, Option.map_none, Option.forall_mem_map]
    exact ⟨fun asked m isCount => (counts m isCount).1 (asked.2 rfl m isCount),
      fun all => ⟨nofun, fun _ m isCount => (counts m isCount).2 (all m isCount)⟩⟩
  | some x => simpa using bounds x rfl

end

/-! ### What is admitted -/

/-- A value of which a size is compared is admitted if the bounds, or else the counts, admit it. -/
theorem admits_sized_iff (measured : family.measure? data = some n) (sized : family ≠ .value) :
    Fluent.Admits c data ↔
      (∀ x ∈ c.min.or (c.minLength.map .ofNat), n.toBinary64.lt x = false) ∧
        ∀ x ∈ c.max.or (c.maxLength.map .ofNat), x.lt n.toBinary64 = false := by
  cases data with
  | string | array | object =>
    cases family <;> cases measured
    rw [Number.toBinary64, ofInt_natCast]
    exact ⟨fun admits => admits _ _ rfl, fun within _ _ same => by cases same; exact within⟩
  | number => cases family <;> first | exact absurd rfl sized | cases measured
  | null | bool => cases family <;> cases measured

section

variable (moderate : c.Moderate) (compared : c.Compared n)
include moderate compared

/-- A number is admitted if the document says so. -/
theorem admits_number_iff : Fluent.Admits c (.number n) ↔ c.HoldsAs .value (.number n) := by
  rw [holdsAs_iff rfl, writtenAt_lower, writtenAt_upper, if_neg (by decide), if_neg (by decide),
    Option.none_or, Option.none_or, Fluent.Admits]
  simp only [Option.map_eq_some_iff, forall_exists_index, and_imp, forall_apply_eq_imp_iff₂]
  refine and_congr (forall₂_congr fun x set => ?_) (forall₂_congr fun x set => ?_)
  · exact (Json.isAtMost_boundNumber (compared.min x set) (moderate.min x set)).symm
  · exact (Json.isAtLeast_boundNumber (compared.max x set) (moderate.max x set)).symm

/-- On a text or an array, bounds that are read alike admit what the document says. -/
theorem admits_iff_of_written (measured : family.measure? data = some n)
    (isWritten : family ∈ [.length, .items]) (alike : c.ReadAlike family n) :
    Fluent.Admits c data ↔ c.HoldsAs family data := by
  have sized : family ≠ .value := by
    rintro rfl
    exact absurd isWritten (by decide)
  have lower (m : Nat) (set : m ∈ c.minLength) :=
    Json.isAtMost_ofNat (compared.minLength m set) (moderate.minLength m set)
  have upper (m : Nat) (set : m ∈ c.maxLength) :=
    Json.isAtLeast_ofNat (compared.maxLength m set) (moderate.maxLength m set)
  rw [admits_sized_iff measured sized, holdsAs_iff measured, writtenAt_lower, writtenAt_upper,
    if_pos isWritten, if_pos isWritten]
  refine and_congr
    (Iff.symm (written_over_iff (fun x set => ?_) lower fun x isBound m isCount => ?_))
    (Iff.symm (written_over_iff (fun x set => ?_) upper fun x isBound m isCount => ?_))
  · exact Json.isAtMost_boundNumber (compared.min x set) (moderate.min x set)
  · rw [alike.lower isWritten x isBound m isCount]
  · exact Json.isAtLeast_boundNumber (compared.max x set) (moderate.max x set)
  · rw [alike.upper isWritten x isBound m isCount]

omit compared in
/-- On an object, constraints admit what the document says and the counts without a bound admit. -/
theorem admits_object_iff {fields : Json.Fields} (compared : c.Compared (.integer fields.length)) :
    Fluent.Admits c (.object fields) ↔
      c.HoldsAs .properties (.object fields) ∧ c.CountsAdmit (.object fields) := by
  have counts : c.CountsAdmit (.object fields) ↔
      (c.min = none → ∀ count ∈ c.minLength, count ≤ fields.length) ∧
        (c.max = none → ∀ count ∈ c.maxLength, fields.length ≤ count) :=
    ⟨fun counts => counts fields rfl, fun counts _ same => by cases same; exact counts⟩
  have measured : BoundsFamily.properties.measure? (.object fields) =
    some (.integer fields.length) := rfl
  rw [admits_sized_iff measured (by decide), holdsAs_iff measured, writtenAt_lower,
    writtenAt_upper, if_neg (by decide), if_neg (by decide), Option.none_or, Option.none_or, counts,
    and_and_and_comm]
  refine and_congr (Iff.symm (written_beside_iff (fun x set => ?_) fun m set => ?_))
    (Iff.symm (written_beside_iff (fun x set => ?_) fun m set => ?_))
  · exact Json.isAtMost_boundNumber (compared.min x set) (moderate.min x set)
  · rw [← le_integer]
    exact ((compared.minLength m set).le_ofNat_iff (moderate.minLength m set)).1
  · exact Json.isAtLeast_boundNumber (compared.max x set) (moderate.max x set)
  · rw [← le_integer]
    exact ((compared.maxLength m set).le_ofNat_iff (moderate.maxLength m set)).2

/-- Bounds that are read alike admit what the document says, and on an object what the counts
without a bound admit besides. -/
theorem admits_iff (measured : family.measure? data = some n) (alike : c.ReadAlike family n) :
    Fluent.Admits c data ↔ c.HoldsAs family data ∧ c.CountsAdmit data := by
  cases data with
  | number =>
    cases family <;> cases measured
    rw [and_iff_left (show c.CountsAdmit (.number n) from nofun)]
    exact admits_number_iff moderate compared
  | string s =>
    cases family <;> cases measured
    rw [and_iff_left (show c.CountsAdmit (.string s) from nofun)]
    exact admits_iff_of_written moderate compared rfl (by decide) alike
  | array values =>
    cases family <;> cases measured
    rw [and_iff_left (show c.CountsAdmit (.array values) from nofun)]
    exact admits_iff_of_written moderate compared rfl (by decide) alike
  | object fields =>
    cases family <;> cases measured
    exact admits_object_iff moderate compared
  | null | bool => cases family <;> cases measured

end

end Constraints

/-! ### Compiled documents -/

/-- The shapes whose bounds are about the data itself: a text, a number, or what has items or
properties of any number. -/
def Shape.measured : List Shape := [.string, .array, .set, .record, .object, .number]

/-- The structure of such a shape says nothing under a bound keyword. -/
theorem Structure.Consists.get?_of_bound {π : Type} {compiles : Node π → NodeSchema → Prop}
    {options : DocumentOptions} {node : Node π} {adapter : Adapter π} {shape : Shape}
    {assembly : Assembly} (h : Consists compiles options node adapter shape assembly)
    (measured : shape ∈ Shape.measured) {keyword : String} (isBound : keyword ∈ boundKeywords) :
    Table.get? assembly.body keyword = none := by
  have apart : ∀ word ∈ boundKeywords, word ∉ ["type", "properties", "required", "items",
      "uniqueItems", "propertyNames", "additionalProperties"] := by decide
  have other := apart keyword isBound
  simp only [List.mem_cons, List.not_mem_nil, or_false, not_or] at other
  obtain ⟨isType, isProperties, isRequired, isItems, isUnique, isNames, isAdditional⟩ := other
  cases h with
  | date isDate => rcases isDate with rfl | ⟨rfl, -⟩ <;> exact absurd measured (by decide)
  | typed => exact if_neg (Ne.symm isType)
  | anything => rfl
  | nothing isEmpty =>
    simp only [List.mem_cons, List.not_mem_nil, or_false] at isEmpty
    rcases isEmpty with rfl | rfl | rfl <;> exact absurd measured (by decide)
  | object => exact get?_object_of_ne _ (by simp [isType, isProperties, isRequired])
  | array | set | record | map =>
    simp [keyed, Structure.typed, Table.get?_append, Table.get?_cons, get?_optionally,
      Ne.symm isType, Ne.symm isItems, Ne.symm isUnique, Ne.symm isNames, Ne.symm isAdditional]
  | _ => exact absurd measured (by decide)

namespace Fluent

open Call Registry Compile

variable {γ : Type} {scope : Scope γ} {registry : Registry (Payload γ)} {options : DocumentOptions}
  {supply : Nat} {node : Schema γ} {layer : Layer γ} {shape : Shape}

/-- The root of a document is compiled as the base of its own chain, if it is a fluent node without
a modifier. -/
theorem compilesBase_root (claimed : (registry.resolve node).value = some (adapter scope))
    (seen : node.payload = .fluent layer) (isShape : layer.kind.predicate = .shape shape) :
    ∃ core, CompilesBase ⟨registry, options⟩ (rootCall options node supply) [] node (adapter scope)
      core := by
  have plain : (adapter scope).modifier? node = none :=
    (modifier?_eq_none_iff seen).2 ⟨shape, isShape⟩
  have new : node.id ∉ (rootCall options node supply).books.active := List.not_mem_nil
  obtain ⟨layers, isOptional, stop, ids, t, peels⟩ :=
    peels_of_peel ⟨registry, options⟩ node (adapter scope)
      (s := resolved ⟨registry, options⟩ (rootCall options node supply)) new
  have unwraps := peels.unwraps
  cases unwraps with
  | base =>
    obtain ⟨assembly, u, runs⟩ := succeeds_structure ⟨registry, options⟩
      (Compile.node ⟨registry, options⟩ options.maxDepth) seen plain
      (noted node (adapter scope) ids t)
    exact ⟨_, .intro new claimed peels runs⟩
  | endless wrapped | failed wrapped | hollow wrapped | reentered wrapped | unclaimed wrapped
  | layer wrapped => cases plain.symm.trans wrapped

/-- The records along the chain of a node without a modifier are its own constraints. -/
theorem merged_records_base (seen : node.payload = .fluent layer) :
    Constraints.merged (Chain.records [] node (adapter scope)) = layer.details.constraints := by
  have set : (adapter scope).constraints node =
      (some layer.details.constraints).filter fun c => !c.isEmpty := by
    rw [adapter]
    simp [details?, seen, Payload.fluent?]
  rw [Chain.records, List.filterMap_nil, List.nil_append, set]
  cases empty : layer.details.constraints.isEmpty with
  | true =>
    rw [Constraints.eq_empty_of_isEmpty empty]
    rfl
  | false => simp [Option.filter, empty, Constraints.merged]

/-- A bound keyword of the document of such a node has the value that its constraints say. -/
theorem get?_compile_of_bound (claimed : (registry.resolve node).value = some (adapter scope))
    (seen : node.payload = .fluent layer) (isShape : layer.kind.predicate = .shape shape)
    (measured : shape ∈ Shape.measured) {keyword : String} (isBound : keyword ∈ boundKeywords) :
    (registry.compile options node supply).1.value.get? keyword =
      layer.details.constraints.writtenAt shape.bounds keyword := by
  have closed : ∀ shape ∈ Shape.measured, shape ∉ [.promise, .union] := by decide
  have known : ∀ keyword ∈ boundKeywords, keyword ∈ vocabulary := by decide
  have solid : (adapter scope).modifier? node ≠ some .nullable := by
    rw [(modifier?_eq_none_iff seen).2 ⟨shape, isShape⟩]
    exact nofun
  obtain ⟨core, compiles⟩ := compilesBase_root claimed seen isShape
  obtain ⟨_, assembly, consists, -, keywords⟩ := compiles.exists_structure
    ((shape?_eq_some_iff seen).2 isShape) (closed shape measured) (fun _ mem => by cases mem) solid
  rw [registry.value_compile, get?_document options _
      (registry.schema_root options node supply (tidy_invariant _ _)) (known keyword isBound),
    keywords keyword isBound, merged_records_base seen, consists.get?_of_bound measured isBound,
    Option.or_none]

/-- The bounds of a document of such a node hold as its constraints say. -/
theorem boundsHold_compile_iff (claimed : (registry.resolve node).value = some (adapter scope))
    (seen : node.payload = .fluent layer) (isShape : layer.kind.predicate = .shape shape)
    (measured : shape ∈ Shape.measured) (data : Json) :
    BoundsHold (registry.compile options node supply).1.value data ↔
      layer.details.constraints.HoldsAs shape.bounds data := by
  refine forall₂_congr fun keyword isBound => ?_
  rw [get?_compile_of_bound claimed seen isShape measured isBound]

/-! ### Validation -/

/-- What such a shape allows has something that its bounds are compared with. -/
theorem exists_measure_of_allows {check : Schema γ → Json → Json → Prop}
    {absence : Schema γ → Except VendorError Absence} {kind : Kind γ (Schema γ)}
    {data output : Json}
    (isShape : kind.predicate = .shape shape) (measured : shape ∈ Shape.measured)
    (allowed : Allows scope check absence kind data output) :
    ∃ n, shape.bounds.measure? data = some n := by
  cases kind with
  | string | number =>
    obtain rfl := TypePredicate.shape.inj isShape
    have isType := allowed.1
    cases data <;> first | exact ⟨_, rfl⟩ | cases isType
  | array | set | object | record =>
    obtain rfl := TypePredicate.shape.inj isShape
    obtain ⟨_, _, rfl, -⟩ := allowed
    exact ⟨_, rfl⟩
  | _ =>
    cases isShape
    try exact absurd measured (by decide)

/-- Data that a node accepts without bounds is accepted with them if they admit it. -/
theorem parsed_iff_admits {bare : Schema γ} (seen : node.payload = .fluent layer)
    (without : bare.payload =
      .fluent { layer with details := { layer.details with constraints := .empty } })
    {data output : Json} (accepted : (validate scope bare data).value = .ok (.parsed output)) :
    (∃ output, (validate scope node data).value = .ok (.parsed output)) ↔
      Admits layer.details.constraints data := by
  have seenBare : bare.payload.fluent? =
      some { layer with details := { layer.details with constraints := .empty } } := by
    rw [without]
    rfl
  have seen' : node.payload.fluent? = some layer := by
    rw [seen]
    rfl
  obtain ⟨_, _, comes⟩ := comesTo_of_validate accepted
  obtain ⟨rfl, rfl⟩ := (parsed_iff_of_comesTo comes output).1 accepted
  obtain ⟨_, inside, isClean⟩ := comes.of_node seenBare
  obtain ⟨rfl, -⟩ := isClean.1 rfl
  obtain ⟨clean, whole, isClean⟩ := Walk.comesTo_node seen' inside
  simp only [parsed_iff_of_comesTo whole, isClean, true_and, exists_and_left, exists_eq, and_true]

/-- Data that a text, a number, an array, a set, a record or an object accepts without bounds is
accepted with bounds exactly when the bound keywords of the document hold for it and, on an object,
the counts that stand without a bound admit it: as long as the bounds are read alike, and an integer
that is not a double does not become a bound. -/
theorem parsed_iff_boundsHold {bare : Schema γ}
    (claimed : (registry.resolve node).value = some (adapter scope))
    (seen : node.payload = .fluent layer) (isShape : layer.kind.predicate = .shape shape)
    (measured : shape ∈ Shape.measured) (moderate : layer.details.constraints.Moderate)
    (without : bare.payload =
      .fluent { layer with details := { layer.details with constraints := .empty } })
    {data : Json}
    (compared : ∀ n, shape.bounds.measure? data = some n → layer.details.constraints.Compared n)
    (alike : ∀ n, shape.bounds.measure? data = some n →
      layer.details.constraints.ReadAlike shape.bounds n)
    (accepted : ∃ output, (validate scope bare data).value = .ok (.parsed output)) :
    (∃ output, (validate scope node data).value = .ok (.parsed output)) ↔
      BoundsHold (registry.compile options node supply).1.value data ∧
        layer.details.constraints.CountsAdmit data := by
  obtain ⟨output, accepted⟩ := accepted
  have seenBare : bare.payload.fluent? =
      some { layer with details := { layer.details with constraints := .empty } } := by
    rw [without]
    rfl
  have passes := passes_of_validate accepted
  rw [Passes, seenBare] at passes
  obtain ⟨n, isMeasured⟩ := exists_measure_of_allows isShape measured passes.1
  rw [parsed_iff_admits seen without accepted, boundsHold_compile_iff claimed seen isShape measured,
    Constraints.admits_iff moderate (compared n isMeasured) isMeasured (alike n isMeasured)]

/-- A text of at least two characters is accepted where the bound keywords hold. -/
theorem boundedText_boundsHold :
    (∃ output, (validate slotless (boundedText (lowerBound 2)) (.string "abc")).value =
        .ok (.parsed output)) ↔
      BoundsHold
        ((standard slotless .firstMatch).compile {} (boundedText (lowerBound 2)) 10).1.value
        (.string "abc") ∧ (lowerBound 2).CountsAdmit (.string "abc") := by
  have accepted : (validate slotless (boundedText .empty) (.string "abc")).value =
      .ok (.parsed (.string "abc")) := rfl
  have moderate : (lowerBound 2).Moderate := by
    have isTwo : ofInt 2 = finite false (2 * one) := ofNat_of_le (by decide +kernel)
    constructor <;> rintro _ ⟨⟩
    rw [isTwo]
    exact Nat.mul_le_mul_right one (by decide +kernel)
  have compared (n : Number) (isSize : BoundsFamily.length.measure? (.string "abc") = some n) :
      (lowerBound 2).Compared n := by
    obtain rfl := Option.some.inj isSize
    constructor <;> rintro _ ⟨⟩
    exact .inl (by decide +kernel)
  have alike (n : Number) (_ : BoundsFamily.length.measure? (.string "abc") = some n) :
      (lowerBound 2).ReadAlike .length n := by
    constructor
    · rintro - _ - _ ⟨⟩
    · rintro - _ ⟨⟩
  have seen : (boundedText (lowerBound 2)).payload = (.fluent {
      kind := .string, details := { constraints := lowerBound 2 } } : Payload Empty) := rfl
  have measured : Shape.string ∈ Shape.measured := by decide
  exact parsed_iff_boundsHold rfl seen rfl measured moderate rfl compared alike ⟨_, accepted⟩

/-- A text with a bound and a greater count. -/
def countedText : Schema Empty := boundedText { lowerBound 2 with minLength := some 5 }

/-- An object of any entries, with constraints. -/
def boundedObject (c : Constraints) : Schema Empty :=
  ⟨⟨1⟩, "polyschema_mock::fluent::Fluent", .fluent {
    kind := .object [], details := { constraints := c } }⟩

/-- A number with constraints. -/
def boundedNumber (c : Constraints) : Schema Empty :=
  ⟨⟨1⟩, "polyschema_mock::fluent::Fluent", .fluent {
    kind := .number, details := { constraints := c } }⟩

/-- An upper bound of `2 ^ 53`. -/
def greatBound : Constraints := { Constraints.empty with max := some (.ofNat (twoTo 53)) }

private theorem exists_parsed_iff (answer : Except VendorError VendorOutcome) :
    (∃ output, answer = .ok (.parsed output)) ↔
      (answer.toOption.any fun outcome => outcome matches .parsed _) = true := by
  rcases answer with error | output | _ | _ | issues <;> simp [Except.toOption]

/-- The validator reads the bound, and the document states the count. -/
private theorem countedText_disagrees :
    (∃ output, (validate slotless countedText (.string "abc")).value = .ok (.parsed output)) ∧
      ¬ BoundsHold ((standard slotless .firstMatch).compile {} countedText 10).1.value
        (.string "abc") := by
  have stated : ((standard slotless .firstMatch).compile {} countedText 10).1.value.get?
      "minLength" = some (.ofNat 5) := rfl
  have broken : assertion "minLength" (.ofNat 5) (.string "abc") = false := by decide +kernel
  refine ⟨(exists_parsed_iff _).2 (by decide +kernel), fun holds => ?_⟩
  rw [holds "minLength" (by decide) _ stated] at broken
  cases broken

/-- The validator counts the properties, and the document states the count of a text. -/
private theorem countedObject_disagrees :
    (¬ ∃ output, (validate slotless (boundedObject (lowerCount 1)) (.object [])).value =
        .ok (.parsed output)) ∧
      BoundsHold ((standard slotless .firstMatch).compile {} (boundedObject (lowerCount 1))
        10).1.value (.object []) := by
  refine ⟨(exists_parsed_iff _).not.2 (by decide +kernel), fun keyword isBound value stated => ?_⟩
  simp only [boundKeywords, List.mem_cons, List.not_mem_nil, or_false] at isBound
  rcases isBound with rfl | rfl | rfl | rfl | rfl | rfl | rfl | rfl
  case inr.inr.inl => rfl
  all_goals cases stated

/-- The validator compares the double of the number, and the document the number. -/
private theorem greatNumber_disagrees :
    (∃ output, (validate slotless (boundedNumber greatBound)
        (.number (.integer (twoTo 53 + 1)))).value = .ok (.parsed output)) ∧
      ¬ BoundsHold ((standard slotless .firstMatch).compile {} (boundedNumber greatBound)
        10).1.value (.number (.integer (twoTo 53 + 1))) := by
  have stated :
      ((standard slotless .firstMatch).compile {} (boundedNumber greatBound) 10).1.value.get?
        "maximum" = some (Assembly.boundNumber (.ofNat (twoTo 53))) := rfl
  have broken : assertion "maximum" (Assembly.boundNumber (.ofNat (twoTo 53)))
      (.number (.integer (twoTo 53 + 1))) = false := by decide +kernel
  refine ⟨(exists_parsed_iff _).2 (by decide +kernel), fun holds => ?_⟩
  rw [holds "maximum" (by decide) _ stated] at broken
  cases broken

/-- Validator and document may disagree either way on data that is accepted without the bounds: on
an object with a count, on a text with a bound and a greater count, and on an integer that becomes
the bound. -/
theorem bounds_disagree :
    ((∃ output, (validate slotless (boundedObject .empty) (.object [])).value =
          .ok (.parsed output)) ∧
      (¬ ∃ output, (validate slotless (boundedObject (lowerCount 1)) (.object [])).value =
          .ok (.parsed output)) ∧
        BoundsHold ((standard slotless .firstMatch).compile {} (boundedObject (lowerCount 1))
          10).1.value (.object [])) ∧
      ((∃ output, (validate slotless (boundedText .empty) (.string "abc")).value =
          .ok (.parsed output)) ∧
        (∃ output, (validate slotless countedText (.string "abc")).value = .ok (.parsed output)) ∧
          ¬ BoundsHold ((standard slotless .firstMatch).compile {} countedText 10).1.value
            (.string "abc")) ∧
      (∃ output, (validate slotless (boundedNumber .empty)
          (.number (.integer (twoTo 53 + 1)))).value = .ok (.parsed output)) ∧
        (∃ output, (validate slotless (boundedNumber greatBound)
            (.number (.integer (twoTo 53 + 1)))).value = .ok (.parsed output)) ∧
          ¬ BoundsHold ((standard slotless .firstMatch).compile {} (boundedNumber greatBound)
            10).1.value (.number (.integer (twoTo 53 + 1))) :=
  ⟨⟨⟨_, rfl⟩, countedObject_disagrees⟩, ⟨⟨_, rfl⟩, countedText_disagrees⟩, ⟨_, rfl⟩,
    greatNumber_disagrees⟩

end Fluent

end SchemaBridge
