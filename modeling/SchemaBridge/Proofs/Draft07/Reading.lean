import Mathlib.Data.Set.List
import SchemaBridge.Proofs.Draft07.Structures
import SchemaBridge.Proofs.Draft07.Writing

/-!
# Readings of schemas

Draft 07 leaves open what a format asks for, and what patterns ask for is not said here. A reading
says it in some way. Of the other keywords it makes what draft 07 makes of them, as far as they
matter for what layers write: alternatives, conjunctions, the type of `null`, and annotations, which
restrict nothing. What holds under every reading holds under acceptance, which takes formats and
patterns to hold for every value, and also where these are taken seriously.

## Main definitions

* `Draft07.Reading` : what schemas accept, and for which values keywords hold.
* `Draft07.acceptance` : acceptance is a reading, whatever references stand for.

## Main results

* `Draft07.Reading.accepts_orNull_iff` : a null branch adds `null`.
* `Draft07.Reading.accepts_write_iff` : annotations add and take nothing.
-/

namespace SchemaBridge

namespace Draft07

/-- A way to read schemas: what they accept, and for which values the keywords of a schema hold.
What a reference accepts is left open, and so is what is asked for by the keywords that are not
named here. -/
structure Reading where
  Accepts : Json → Json → Prop
  Holds : Json.Fields → String → Json → Json → Prop
  /-- A schema that is no reference accepts a value if all of its keywords hold. -/
  keywords : ∀ schema data, Table.get? schema "$ref" = none →
    (Accepts (.object schema) data ↔
      ∀ keyword value, (keyword, value) ∈ schema → Holds schema keyword value data)
  anyOf : ∀ schema branches data,
    Holds schema "anyOf" (.array branches) data ↔ ∃ branch ∈ branches, Accepts branch data
  allOf : ∀ schema branches data,
    Holds schema "allOf" (.array branches) data ↔ ∀ branch ∈ branches, Accepts branch data
  null : ∀ schema data, Holds schema "type" (.string "null") data ↔ data = .null
  /-- Annotations restrict nothing. -/
  annotation : ∀ schema keyword value data, keyword ∈ Annotations.keywords →
    Holds schema keyword value data
  /-- A keyword may look at others, but not at annotations. -/
  beside : ∀ schema other keyword value data,
    (∀ key, key ∉ Annotations.keywords → Table.get? other key = Table.get? schema key) →
      Holds schema keyword value data → Holds other keyword value data

/-- A branch that is the same as the schema of `null` is that schema. -/
private theorem eq_nullSchema {branch : Json} (h : branch.same Assembly.nullSchema = true) :
    branch = Assembly.nullSchema := by
  cases branch with
  | object fields =>
    obtain ⟨one, same⟩ := Bool.and_eq_true_iff.1 h
    obtain ⟨⟨key, value⟩, rfl⟩ := List.length_eq_one_iff.1 (beq_iff_eq.1 one)
    obtain ⟨found, -⟩ := Bool.and_eq_true_iff.1 same
    by_cases isType : "type" = key
    · subst isType
      cases value with
      | string word =>
        obtain rfl : word = "null" := beq_iff_eq.1 found
        rfl
      | null | bool | number | array | object => cases found
    · rw [Table.get?_cons, if_neg isType] at found
      cases found
  | null | bool | number | string | array => cases h

/-- If the schema of `null` is found among branches it is one of them. -/
theorem nullSchema_mem_of_among {branches : List Json}
    (present : Json.among branches Assembly.nullSchema = true) :
    Assembly.nullSchema ∈ branches := by
  obtain ⟨branch, mem, same⟩ := List.any_eq_true.1 present
  rwa [← eq_nullSchema same]

namespace Reading

variable (reading : Reading) {schema : Json.Fields} {data : Json}

/-- A schema of one keyword, which is no reference, accepts what the keyword holds for. -/
theorem accepts_singleton_iff {keyword : String} {value : Json} (plain : keyword ≠ "$ref") :
    reading.Accepts (.object [(keyword, value)]) data ↔
      reading.Holds [(keyword, value)] keyword value data := by
  rw [reading.keywords _ _ (by rw [Table.get?_cons, if_neg plain]; rfl)]
  constructor
  · exact fun all => all _ _ (List.mem_singleton_self _)
  · rintro holds _ _ mem
    obtain ⟨rfl, rfl⟩ := Prod.mk.inj (List.mem_singleton.1 mem)
    exact holds

theorem accepts_anyOf_iff {branches : List Json} :
    reading.Accepts (.object [("anyOf", .array branches)]) data ↔
      ∃ branch ∈ branches, reading.Accepts branch data := by
  rw [reading.accepts_singleton_iff (by decide), reading.anyOf]

/-- A schema under a keyword of its own accepts what it accepts. -/
theorem accepts_moved_iff :
    reading.Accepts (.object [("allOf", .array [.object schema])]) data ↔
      reading.Accepts (.object schema) data := by
  rw [reading.accepts_singleton_iff (by decide), reading.allOf, List.forall_mem_singleton]

theorem accepts_nullSchema_iff : reading.Accepts Assembly.nullSchema data ↔ data = .null := by
  rw [Assembly.nullSchema, reading.accepts_singleton_iff (by decide), reading.null]

/-- With a null branch a schema accepts `null`, and else what it accepted. -/
theorem accepts_orNull_iff : reading.Accepts (.object (Assembly.orNull schema)) data ↔
    data = .null ∨ reading.Accepts (.object schema) data := by
  unfold Assembly.orNull
  split
  next branches =>
    rw [reading.accepts_anyOf_iff, reading.accepts_anyOf_iff]
    split
    next present =>
      -- The branch is there already, and nothing is added.
      refine ⟨.inr, ?_⟩
      rintro (rfl | accepted)
      · exact ⟨_, nullSchema_mem_of_among present, reading.accepts_nullSchema_iff.2 rfl⟩
      · exact accepted
    next => simp [or_and_right, exists_or, accepts_nullSchema_iff, or_comm]
  next =>
    rw [reading.accepts_anyOf_iff]
    simp [accepts_nullSchema_iff, or_comm]

/-- Annotations may be written into a schema that is no reference, or taken away. -/
theorem accepts_write_iff (a : Annotations) (plain : Table.get? schema "$ref" = none) :
    reading.Accepts (.object (a.write schema)) data ↔ reading.Accepts (.object schema) data := by
  have same (key : String) (other : key ∉ Annotations.keywords) :
      Table.get? (a.write schema) key = Table.get? schema key := a.get?_write schema other
  rw [reading.keywords _ _ plain, reading.keywords _ _ ((same _ (by decide)).trans plain)]
  constructor
  · intro all keyword value mem
    by_cases isAnnotation : keyword ∈ Annotations.keywords
    · exact reading.annotation _ _ _ _ isAnnotation
    · exact reading.beside _ _ _ _ _ (fun key other => (same key other).symm)
        (all _ _ (a.mem_write mem isAnnotation))
  · intro all keyword value mem
    rcases Annotations.mem_of_mem_write mem with before | isAnnotation
    · exact reading.beside _ _ _ _ _ same (all _ _ before)
    · exact reading.annotation _ _ _ _ isAnnotation

end Reading

/-! ### Acceptance is a reading -/

section

variable {targets : Targets} {schema other : Json.Fields} {branches : List Json}
  {keyword : String} {value data : Json}

/-- A schema is an object that accepts a value. -/
def TakenAs (targets : Targets) (schema data : Json) : Prop :=
  ∃ fields, schema = .object fields ∧ Accepts targets fields data

theorem takenAs_object_iff :
    TakenAs targets (.object schema) data ↔ Accepts targets schema data := by
  simp [TakenAs]

theorem takenAs_iff_of_plain (plain : Table.get? schema "$ref" = none) :
    TakenAs targets (.object schema) data ↔
      ∀ keyword value, (keyword, value) ∈ schema → Holds targets schema keyword value data := by
  rw [takenAs_object_iff, accepts_iff plain]

theorem holds_anyOf_iff : Holds targets schema "anyOf" (.array branches) data ↔
    ∃ branch ∈ branches, TakenAs targets branch data := by
  rw [holds_iff, Means]
  constructor
  · rintro ⟨_, branch, ⟨⟩, mem, accepted⟩
    exact ⟨_, mem, branch, rfl, accepted⟩
  · rintro ⟨_, mem, branch, rfl, accepted⟩
    exact ⟨_, branch, rfl, mem, accepted⟩

theorem holds_allOf_iff : Holds targets schema "allOf" (.array branches) data ↔
    ∀ branch ∈ branches, TakenAs targets branch data := by
  rw [holds_iff, Means]
  constructor
  · rintro ⟨schemas, same, accepted⟩ branch mem
    obtain rfl := Json.array.inj same
    obtain ⟨fields, isBranch, rfl⟩ := List.mem_map.1 mem
    exact ⟨fields, rfl, accepted fields isBranch⟩
  · intro accepted
    have objects : branches ∈ Set.range (List.map Json.object) := by
      rw [Set.range_list_map]
      exact fun branch mem => (accepted branch mem).imp fun _ h => h.1.symm
    obtain ⟨schemas, rfl⟩ := objects
    refine ⟨schemas, rfl, fun branch mem => ?_⟩
    exact takenAs_object_iff.1 (accepted _ (List.mem_map_of_mem mem))

theorem holds_null_iff : Holds targets schema "type" (.string "null") data ↔ data = .null := by
  rw [holds_iff, means_type]
  cases data <;> simp [hasType_eq, Json.typeWord]

/-- An annotation holds for every value. -/
theorem holds_annotation (mem : keyword ∈ Annotations.keywords) :
    Holds targets schema keyword value data := by
  have inert : ∀ keyword ∈ Annotations.keywords, keyword ∉ applicators := by decide
  refine .assertion (inert keyword mem) ?_
  simp only [Annotations.keywords, List.mem_cons, List.not_mem_nil, or_false] at mem
  rcases mem with rfl | rfl | rfl | rfl | rfl <;> rfl

/-- What a keyword asks for does not depend on annotations beside it. -/
theorem Holds.beside
    (same : ∀ key, key ∉ Annotations.keywords → Table.get? other key = Table.get? schema key)
    (holds : Holds targets schema keyword value data) : Holds targets other keyword value data :=
  holds.of_same (same _ (by decide)) (same _ (by decide))

end

/-- Acceptance is a reading: formats and patterns hold for every value. -/
def acceptance (targets : Targets) : Reading where
  Accepts := TakenAs targets
  Holds := Holds targets
  keywords _ _ := takenAs_iff_of_plain
  anyOf _ _ _ := holds_anyOf_iff
  allOf _ _ _ := holds_allOf_iff
  null _ _ := holds_null_iff
  annotation _ _ _ _ := holds_annotation
  beside _ _ _ _ _ := Holds.beside

theorem acceptance_accepts_iff {targets : Targets} {schema : Json.Fields} {data : Json} :
    (acceptance targets).Accepts (.object schema) data ↔ Accepts targets schema data :=
  takenAs_object_iff

end Draft07

end SchemaBridge
