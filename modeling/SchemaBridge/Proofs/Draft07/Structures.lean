import SchemaBridge.Proofs.Draft07.Keywords
import SchemaBridge.Proofs.Table.LastEntries

/-!
# What structures accept

The keywords of each shape, read as a condition on data: a structure accepts exactly the data of its
type whose parts are accepted by the schemas of the parts.

## Main results

* `Draft07.accepts_iff` : a schema that is no reference accepts if all of its keywords hold.
* `Draft07.accepts_array`, `Draft07.accepts_tuple`, `Draft07.accepts_object`, … : the data that the
  structures accept.
-/

namespace SchemaBridge.Draft07

variable {targets : Targets} {schema : Json.Fields} {data : Json} {keyword : String}

/-! ### Keywords, one by one -/

/-- A schema that is no reference accepts if all of its keywords hold. -/
theorem accepts_iff (plain : Table.get? schema "$ref" = none) : Accepts targets schema data ↔
    ∀ keyword value, (keyword, value) ∈ schema → Holds targets schema keyword value data := by
  refine ⟨fun h => ?_, .keywords plain⟩
  cases h with
  | reference isReference => cases plain.symm.trans isReference
  | keywords _ holds => exact holds

/-- What a keyword of a schema says about a value. -/
def Means (targets : Targets) (schema : Json.Fields) (keyword : String)
    (value data : Json) : Prop :=
  match keyword with
  | "anyOf" => ∃ branches branch, value = .array branches ∧ .object branch ∈ branches ∧
      Accepts targets branch data
  | "allOf" => ∃ branches : List Json.Fields, value = .array (branches.map .object) ∧
      ∀ branch ∈ branches, Accepts targets branch data
  | "not" => False
  | "properties" => ∀ fields, data = .object fields → ∃ properties, value = .object properties ∧
      ∀ key part item, Table.get? properties key = some (.object part) →
        Table.get? fields key = some item → Accepts targets part item
  | "additionalProperties" => ∀ fields, data = .object fields → ∃ rest, value = .object rest ∧
      ∀ key item, (key, item) ∈ fields → propertySchema? schema key = none →
        Accepts targets rest item
  | "propertyNames" => ∀ fields, data = .object fields → ∃ names, value = .object names ∧
      ∀ key ∈ Table.keys fields, Accepts targets names (.string key)
  | "items" => ∀ items, data = .array items →
      (∃ element, value = .object element ∧ ∀ item ∈ items, Accepts targets element item) ∨
      ∃ positions : List Json.Fields, value = .array (positions.map .object) ∧
        ∀ (i : Nat) position item, positions[i]? = some position → items[i]? = some item →
          Accepts targets position item
  | "additionalItems" => ∀ items, data = .array items → ∃ rest, value = .object rest ∧
      ∀ (i : Nat) positions item, positionSchemas? schema = some positions →
        positions.length ≤ i → items[i]? = some item → Accepts targets rest item
  | _ => assertion keyword value data = true

/-- A keyword holds if what it says is right. -/
theorem holds_iff {value : Json} :
    Holds targets schema keyword value data ↔ Means targets schema keyword value data := by
  constructor
  · intro h
    cases h with
    | assertion isAssertion holds =>
      unfold Means
      split <;> first | exact holds | exact absurd (by decide) isAssertion
    | anyOf isBranch accepted => exact ⟨_, _, rfl, isBranch, accepted⟩
    | allOf accepted => exact ⟨_, rfl, accepted⟩
    | properties accepted =>
      rintro _ ⟨⟩
      exact ⟨_, rfl, accepted⟩
    | additionalProperties accepted =>
      rintro _ ⟨⟩
      exact ⟨_, rfl, accepted⟩
    | propertyNames accepted =>
      rintro _ ⟨⟩
      exact ⟨_, rfl, accepted⟩
    | items accepted =>
      rintro _ ⟨⟩
      exact .inl ⟨_, rfl, accepted⟩
    | positions accepted =>
      rintro _ ⟨⟩
      exact .inr ⟨_, rfl, accepted⟩
    | additionalItems accepted =>
      rintro _ ⟨⟩
      exact ⟨_, rfl, accepted⟩
    | notObject isAboutObjects isOther =>
      simp only [List.mem_cons, List.not_mem_nil, or_false] at isAboutObjects
      rcases isAboutObjects with rfl | rfl | rfl <;> (rintro _ rfl; cases isOther)
    | notArray isAboutArrays isOther =>
      simp only [List.mem_cons, List.not_mem_nil, or_false] at isAboutArrays
      rcases isAboutArrays with rfl | rfl <;> (rintro _ rfl; cases isOther)
  · have otherThanObject (h : ∀ fields, data ≠ .object fields) : data.isObject = false := by
      cases data <;> first | rfl | exact absurd rfl (h _)
    have otherThanArray (h : ∀ items, data ≠ .array items) : data.isArray = false := by
      cases data <;> first | rfl | exact absurd rfl (h _)
    intro h
    unfold Means at h
    split at h
    · obtain ⟨branches, branch, rfl, isBranch, accepted⟩ := h
      exact .anyOf isBranch accepted
    · obtain ⟨branches, rfl, accepted⟩ := h
      exact .allOf accepted
    · exact h.elim
    · by_cases isObject : ∃ fields, data = .object fields
      · obtain ⟨fields, rfl⟩ := isObject
        obtain ⟨properties, rfl, accepted⟩ := h fields rfl
        exact .properties accepted
      · exact .notObject (by decide) (otherThanObject (not_exists.1 isObject))
    · by_cases isObject : ∃ fields, data = .object fields
      · obtain ⟨fields, rfl⟩ := isObject
        obtain ⟨rest, rfl, accepted⟩ := h fields rfl
        exact .additionalProperties accepted
      · exact .notObject (by decide) (otherThanObject (not_exists.1 isObject))
    · by_cases isObject : ∃ fields, data = .object fields
      · obtain ⟨fields, rfl⟩ := isObject
        obtain ⟨names, rfl, accepted⟩ := h fields rfl
        exact .propertyNames accepted
      · exact .notObject (by decide) (otherThanObject (not_exists.1 isObject))
    · by_cases isArray : ∃ items, data = .array items
      · obtain ⟨items, rfl⟩ := isArray
        obtain ⟨element, rfl, accepted⟩ | ⟨positions, rfl, accepted⟩ := h items rfl
        · exact .items accepted
        · exact .positions accepted
      · exact .notArray (by decide) (otherThanArray (not_exists.1 isArray))
    · by_cases isArray : ∃ items, data = .array items
      · obtain ⟨items, rfl⟩ := isArray
        obtain ⟨rest, rfl, accepted⟩ := h items rfl
        exact .additionalItems accepted
      · exact .notArray (by decide) (otherThanArray (not_exists.1 isArray))
    · rename_i h₁ h₂ h₃ h₄ h₅ h₆ h₇ h₈
      refine .assertion ?_ h
      simp only [applicators, List.mem_cons, List.not_mem_nil, or_false, not_or]
      exact ⟨h₁, h₂, h₃, h₄, h₅, h₆, h₇, h₈⟩

/-- A schema that is no reference accepts if what all of its keywords say is right. -/
theorem accepts_iff_means (plain : Table.get? schema "$ref" = none) : Accepts targets schema data ↔
    ∀ entry ∈ schema, Means targets schema entry.1 entry.2 data := by
  rw [accepts_iff plain]
  exact ⟨fun h entry mem => holds_iff.1 (h _ _ mem), fun h _ _ mem => holds_iff.2 (h _ mem)⟩

/-! ### Structures -/

theorem hasType_eq {word : String} (other : word ≠ "integer") (data : Json) :
    hasType word data = decide (word = data.typeWord) := by
  unfold hasType
  split
  · exact absurd rfl other
  · rfl

theorem hasType_integer (i : Int) : hasType "integer" (.number (.integer i)) = true := by
  simp [hasType, Number.isWhole, Number.units?]

theorem hasType_array : hasType "array" data = true ↔ ∃ items, data = .array items := by
  cases data <;> simp [hasType_eq, Json.typeWord]

theorem hasType_object : hasType "object" data = true ↔ ∃ fields, data = .object fields := by
  cases data <;> simp [hasType_eq, Json.typeWord]

theorem le_integer {m n : Nat} : (Number.integer m).le (.integer n) = true ↔ m ≤ n := by
  have positive : 0 < (Binary64.one : Int) := Int.natCast_pos.2 Binary64.one_pos
  rw [Number.le, Number.units?, Number.units?, decide_eq_true_eq,
    Int.mul_le_mul_right positive, Int.ofNat_le]

theorem assertion_minItems (n : Nat) (items : List Json) :
    assertion "minItems" (.ofNat n) (.array items) = true ↔ n ≤ items.length := by
  have compares : assertion "minItems" (.ofNat n) (.array items) =
      (measure? "minItems" (.array items)).all fun count =>
        (Json.ofNat n).asNumber?.any fun bound => bound.le count := rfl
  have measured : measure? "minItems" (.array items) = some (.integer items.length) := rfl
  have written : (Json.ofNat n).asNumber? = some (.integer n) := rfl
  rw [compares, measured, written, Option.all_some, Option.any_some, le_integer]

theorem assertion_maxItems (n : Nat) (items : List Json) :
    assertion "maxItems" (.ofNat n) (.array items) = true ↔ items.length ≤ n := by
  have compares : assertion "maxItems" (.ofNat n) (.array items) =
      (measure? "maxItems" (.array items)).all fun count =>
        (Json.ofNat n).asNumber?.any fun bound => count.le bound := rfl
  have measured : measure? "maxItems" (.array items) = some (.integer items.length) := rfl
  have written : (Json.ofNat n).asNumber? = some (.integer n) := rfl
  rw [compares, measured, written, Option.all_some, Option.any_some, le_integer]

section Structures

open Structure

-- What single keywords say, read off by computation: the proofs about schemas cite these and leave
-- `Means` closed.

theorem means_type {word : String} :
    Means targets schema "type" (.string word) data ↔ hasType word data = true :=
  Iff.rfl

theorem means_const {value : Json} :
    Means targets schema "const" value data ↔ value.same data = true :=
  Iff.rfl

theorem means_enum {values : List Json} :
    Means targets schema "enum" (.array values) data ↔ Json.among values data = true :=
  Iff.rfl

theorem means_uniqueItems {items : List Json} :
    Means targets schema "uniqueItems" (.bool true) (.array items) ↔ allDistinct items = true :=
  Iff.rfl

theorem means_anyOf {value : Json} : Means targets schema "anyOf" value data ↔
    ∃ branches branch, value = .array branches ∧ .object branch ∈ branches ∧
      Accepts targets branch data :=
  Iff.rfl

theorem means_allOf {value : Json} : Means targets schema "allOf" value data ↔
    ∃ branches : List Json.Fields, value = .array (branches.map .object) ∧
      ∀ branch ∈ branches, Accepts targets branch data :=
  Iff.rfl

/-- A format is an annotation. -/
theorem means_format {value : Json} : Means targets schema "format" value data :=
  rfl

/-- What is said of arrays, said of an array. -/
private theorem forall_array_iff {items : List Json} {P : List Json → Prop} :
    (∀ given, Json.array items = .array given → P given) ↔ P items :=
  ⟨fun h => h items rfl, fun h _ same => Json.array.inj same ▸ h⟩

/-- What is said of objects, said of an object. -/
private theorem forall_object_iff {fields : Json.Fields} {P : Json.Fields → Prop} :
    (∀ given, Json.object fields = .object given → P given) ↔ P fields :=
  ⟨fun h => h fields rfl, fun h _ same => Json.object.inj same ▸ h⟩

/-- What is said of the schema that an object is. -/
private theorem exists_object_iff {part : Json.Fields} {P : Json.Fields → Prop} :
    (∃ given, Json.object part = .object given ∧ P given) ↔ P part :=
  ⟨fun ⟨_, same, h⟩ => Json.object.inj same ▸ h, fun h => ⟨part, rfl, h⟩⟩

/-- One schema for all items. -/
theorem means_items (c : NodeSchema) (items : List Json) :
    Means targets schema "items" c.toJson (.array items) ↔
      ∀ item ∈ items, Accepts targets c.schema item := by
  refine forall_array_iff.trans ⟨?_, fun h => .inl (exists_object_iff.2 h)⟩
  rintro (single | ⟨positions, isList, -⟩)
  · exact exists_object_iff.1 single
  · cases isList

theorem accepts_typed (word : String) :
    Accepts targets (typed word) data ↔ hasType word data = true := by
  rw [accepts_iff_means rfl, typed, List.forall_mem_singleton, means_type]

theorem accepts_date (options : DocumentOptions) :
    Accepts targets (date options) data ↔ hasType "string" data = true := by
  rw [accepts_iff_means rfl, date, List.forall_mem_cons, List.forall_mem_singleton]
  exact and_iff_left means_format

theorem accepts_const (value : Json) :
    Accepts targets [("const", value)] data ↔ value.same data = true := by
  rw [accepts_iff_means rfl, List.forall_mem_singleton, means_const]

theorem accepts_enum (values : List Json) :
    Accepts targets [("enum", .array values)] data ↔ Json.among values data = true := by
  rw [accepts_iff_means rfl, List.forall_mem_singleton, means_enum]

/-- A union accepts what one of its options accepts. -/
theorem accepts_union (options : List NodeSchema) :
    Accepts targets (union options) data ↔ ∃ c ∈ options, Accepts targets c.schema data := by
  unfold union
  cases options with
  | nil => simp [nothing, not_accepts_nothing]
  | cons first rest =>
    rw [if_neg (by simp), accepts_iff_means rfl]
    simp only [means_anyOf, List.mem_singleton, forall_eq, Json.array.injEq]
    constructor
    · rintro ⟨_, branch, rfl, mem, accepted⟩
      obtain ⟨c, isOption, same⟩ := List.mem_map.1 mem
      obtain rfl := Json.object.inj same
      exact ⟨c, isOption, accepted⟩
    · rintro ⟨c, isOption, accepted⟩
      exact ⟨_, c.schema, rfl, List.mem_map_of_mem isOption, accepted⟩

/-- An intersection accepts what all of its parts accept. -/
theorem accepts_intersection (parts : List NodeSchema) :
    Accepts targets (intersection parts) data ↔ ∀ c ∈ parts, Accepts targets c.schema data := by
  unfold intersection
  cases parts with
  | nil => simp [accepts_empty]
  | cons first rest =>
    rw [if_neg (by simp), accepts_iff_means rfl]
    simp only [means_allOf, List.mem_singleton, forall_eq, Json.array.injEq]
    have schemas : (first :: rest).map NodeSchema.toJson =
        ((first :: rest).map (·.schema)).map Json.object := by
      rw [List.map_map]
      rfl
    rw [schemas]
    constructor
    · rintro ⟨branches, same, accepted⟩ c mem
      have isBranch := List.mem_map_of_mem (f := NodeSchema.schema) mem
      rw [List.map_injective_iff.2 (fun _ _ => Json.object.inj) same] at isBranch
      exact accepted _ isBranch
    · intro accepted
      refine ⟨_, rfl, fun branch mem => ?_⟩
      obtain ⟨c, isPart, rfl⟩ := List.mem_map.1 mem
      exact accepted c isPart

theorem forall_mem_optionally {key : String} {value : Option Json} {P : String × Json → Prop} :
    (∀ entry ∈ optionally key value, P entry) ↔ ∀ v ∈ value, P (key, v) := by
  cases value <;> simp [optionally]

/-- A schema of arrays accepts arrays of which the other keywords hold. -/
theorem accepts_typed_array {rest : Json.Fields} (plain : Table.get? rest "$ref" = none) :
    Accepts targets (typed "array" ++ rest) data ↔ ∃ items, data = .array items ∧
      ∀ entry ∈ rest, Means targets (typed "array" ++ rest) entry.1 entry.2 (.array items) := by
  have noReference : Table.get? (typed "array" ++ rest) "$ref" = none := plain
  rw [accepts_iff_means noReference]
  simp only [typed, List.singleton_append, List.forall_mem_cons]
  constructor
  · rintro ⟨isArray, holds⟩
    obtain ⟨items, rfl⟩ := hasType_array.1 isArray
    exact ⟨items, rfl, holds⟩
  · rintro ⟨items, rfl, holds⟩
    exact ⟨hasType_array.2 ⟨items, rfl⟩, holds⟩

/-- A schema of objects accepts objects of which the other keywords hold. -/
theorem accepts_typed_object {rest : Json.Fields} (plain : Table.get? rest "$ref" = none) :
    Accepts targets (typed "object" ++ rest) data ↔ ∃ fields, data = .object fields ∧
      ∀ entry ∈ rest, Means targets (typed "object" ++ rest) entry.1 entry.2 (.object fields) := by
  have noReference : Table.get? (typed "object" ++ rest) "$ref" = none := plain
  rw [accepts_iff_means noReference]
  simp only [typed, List.singleton_append, List.forall_mem_cons]
  constructor
  · rintro ⟨isObject, holds⟩
    obtain ⟨fields, rfl⟩ := hasType_object.1 isObject
    exact ⟨fields, rfl, holds⟩
  · rintro ⟨fields, rfl, holds⟩
    exact ⟨hasType_object.2 ⟨fields, rfl⟩, holds⟩

/-- An array accepts arrays whose items its element accepts. -/
theorem accepts_array (element : Option NodeSchema) :
    Accepts targets (typed "array" ++ optionally "items" (element.map NodeSchema.toJson)) data ↔
      ∃ items, data = .array items ∧ ∀ c ∈ element, ∀ item ∈ items,
        Accepts targets c.schema item := by
  rw [accepts_typed_array (by cases element <;> rfl)]
  refine exists_congr fun items => and_congr_right fun _ => ?_
  rw [forall_mem_optionally]
  simp [means_items]

/-- A set accepts arrays without repetition whose items its element accepts. -/
theorem accepts_set (element : Option NodeSchema) :
    Accepts targets (typed "array" ++ [("uniqueItems", .bool true)] ++
      optionally "items" (element.map NodeSchema.toJson)) data ↔
      ∃ items, data = .array items ∧ allDistinct items = true ∧
        ∀ c ∈ element, ∀ item ∈ items, Accepts targets c.schema item := by
  rw [List.append_assoc, accepts_typed_array (by cases element <;> rfl)]
  refine exists_congr fun items => and_congr_right fun _ => ?_
  rw [List.forall_mem_append, List.forall_mem_singleton, means_uniqueItems, forall_mem_optionally]
  simp [means_items]

theorem means_minItems (n : Nat) (items : List Json) :
    Means targets schema "minItems" (.ofNat n) (.array items) ↔ n ≤ items.length :=
  assertion_minItems n items

theorem means_maxItems (n : Nat) (items : List Json) :
    Means targets schema "maxItems" (.ofNat n) (.array items) ↔ items.length ≤ n :=
  assertion_maxItems n items

/-- The schemas of positions that are given one by one. -/
theorem means_positions (positions : List NodeSchema) (items : List Json) :
    Means targets schema "items" (.array (positions.map NodeSchema.toJson)) (.array items) ↔
      ∀ (i : Nat) c item, positions[i]? = some c → items[i]? = some item →
        Accepts targets c.schema item := by
  have schemas : positions.map NodeSchema.toJson = (positions.map (·.schema)).map Json.object := by
    rw [List.map_map]
    rfl
  refine forall_array_iff.trans ⟨?_, fun h => .inr ?_⟩
  · intro h i c item isPosition isItem
    rcases h with ⟨element, isObject, -⟩ | ⟨parts, same, accepted⟩
    · cases isObject
    · obtain rfl := List.map_injective_iff.2 (fun _ _ => Json.object.inj)
        (schemas.symm.trans (Json.array.inj same))
      exact accepted i c.schema item (by rw [List.getElem?_map, isPosition]; rfl) isItem
  · refine ⟨_, congrArg Json.array schemas, fun i schema item isPosition isItem => ?_⟩
    rw [List.getElem?_map] at isPosition
    obtain ⟨c, isGiven, rfl⟩ := Option.map_eq_some_iff.1 isPosition
    exact h i c item isGiven isItem

/-- The schema of the items after the positions that are given one by one. -/
theorem means_additionalItems {positions : List Json}
    (given : positionSchemas? schema = some positions) (c : NodeSchema) (items : List Json) :
    Means targets schema "additionalItems" c.toJson (.array items) ↔
      ∀ (i : Nat) item, positions.length ≤ i → items[i]? = some item →
        Accepts targets c.schema item := by
  refine forall_array_iff.trans (exists_object_iff.trans ⟨?_, ?_⟩)
  · exact fun h i item => h i positions item given
  · intro h i _ item same
    obtain rfl := Option.some.inj (given.symm.trans same)
    exact h i item

/-- Items that are described by their positions, and the items after them by one schema. -/
private theorem forall_positions_or {positions : List NodeSchema} {items : List Json}
    {c : NodeSchema} {P : NodeSchema → Json → Prop} :
    (∀ (i : Nat) item, items[i]? = some item → ∀ part, positions[i]?.or (some c) = some part →
      P part item) ↔
    (∀ (i : Nat) part item, positions[i]? = some part → items[i]? = some item → P part item) ∧
      ∀ (i : Nat) item, positions.length ≤ i → items[i]? = some item → P c item := by
  constructor
  · intro h
    refine ⟨fun i part item isPosition isItem => h i item isItem part ?_,
      fun i item late isItem => h i item isItem c ?_⟩
    · rw [isPosition, Option.some_or]
    · rw [List.getElem?_eq_none late, Option.none_or]
  · rintro ⟨given, rest⟩ i item isItem part isPart
    cases isPosition : positions[i]? with
    | none =>
      rw [isPosition, Option.none_or] at isPart
      obtain rfl := Option.some.inj isPart
      exact rest i item (List.getElem?_eq_none_iff.1 isPosition) isItem
    | some position =>
      rw [isPosition, Option.some_or] at isPart
      obtain rfl := Option.some.inj isPart
      exact given i position item isPosition isItem

/-- A tuple accepts arrays with an item for each of its positions, and with no more items if there
is no rest, whose items are accepted according to their positions. -/
theorem accepts_tuple (positions : List NodeSchema) (rest : Option NodeSchema) :
    Accepts targets (tuple (positions.map NodeSchema.toJson) (rest.map NodeSchema.toJson)) data ↔
      ∃ items, data = .array items ∧ positions.length ≤ items.length ∧
        (rest = none → items.length ≤ positions.length) ∧
        ∀ (i : Nat) item, items[i]? = some item → ∀ c, positions[i]?.or rest = some c →
          Accepts targets c.schema item := by
  cases positions with
  | nil =>
    cases rest with
    | none =>
      change Accepts targets (typed "array" ++ [("maxItems", .ofNat 0)]) data ↔ _
      rw [accepts_typed_array (by rfl)]
      simp only [List.mem_singleton, forall_eq, means_maxItems]
      simp
    | some c =>
      change Accepts targets (typed "array" ++ [("items", c.toJson)]) data ↔ _
      rw [accepts_typed_array (by rfl)]
      simp only [List.mem_singleton, forall_eq, means_items]
      simp only [List.mem_iff_getElem?, List.length_nil, List.getElem?_nil, Option.none_or]
      grind
  | cons first others =>
    cases rest with
    | none =>
      change Accepts targets (typed "array" ++
        [("items", .array ((first :: others).map NodeSchema.toJson)),
          ("minItems", .ofNat _), ("maxItems", .ofNat _)]) data ↔ _
      rw [accepts_typed_array (by rfl)]
      simp only [List.forall_mem_cons, means_positions, means_minItems, means_maxItems,
        List.length_map, Option.or_none, true_imp_iff]
      grind
    | some c =>
      have given : positionSchemas? (typed "array" ++
          [("items", .array ((first :: others).map NodeSchema.toJson)),
            ("additionalItems", c.toJson), ("minItems", .ofNat (first :: others).length)]) =
          some ((first :: others).map NodeSchema.toJson) := rfl
      change Accepts targets (typed "array" ++
        [("items", .array ((first :: others).map NodeSchema.toJson)),
          ("additionalItems", c.toJson), ("minItems", .ofNat _)]) data ↔ _
      rw [accepts_typed_array (by rfl)]
      simp only [List.forall_mem_cons, means_positions, means_minItems,
        means_additionalItems given, List.length_map, forall_positions_or]
      grind

/-- The properties of an object are the last entries. -/
theorem means_properties (entries : List (String × NodeSchema)) (fields : Json.Fields) :
    Means targets schema "properties"
        (.object (Table.ofList (entries.map fun entry => (entry.1, entry.2.toJson))))
        (.object fields) ↔
      ∀ entry ∈ Table.lastEntries entries, ∀ value, Table.get? fields entry.1 = some value →
        Accepts targets entry.2.schema value := by
  refine forall_object_iff.trans (exists_object_iff.trans ⟨?_, ?_⟩)
  · rintro h ⟨key, c⟩ mem value present
    refine h key c.schema value (Table.get?_ofList_iff.2 ?_) present
    rw [Table.lastEntries_map]
    exact List.mem_map_of_mem (f := fun entry => (entry.1, entry.2.toJson)) mem
  · intro h key part value isPart present
    have last := Table.get?_ofList_iff.1 isPart
    rw [Table.lastEntries_map] at last
    obtain ⟨⟨key', c⟩, mem, same⟩ := List.mem_map.1 last
    obtain ⟨rfl, toJson⟩ := Prod.mk.inj same
    obtain rfl := Json.object.inj toJson
    exact h _ mem value present

/-- The required keys are those of the last entries that are not optional. -/
theorem means_required (entries : List (String × NodeSchema)) (fields : Json.Fields) :
    Means targets schema "required" (.ofStrings (required entries)) (.object fields) ↔
      ∀ entry ∈ Table.lastEntries entries, entry.2.isOptional = false →
        Table.has fields entry.1 = true := by
  have reads : Means targets schema "required" (.ofStrings (required entries)) (.object fields) ↔
      ((required entries).map Json.string).all
        (fun key => key.asString?.any fun name => Table.has fields name) = true := Iff.rfl
  rw [reads, required_eq]
  simp [Table.keys, Json.asString?, ← Bool.not_eq_true, or_iff_not_imp_left]

/-- An object accepts objects in which every property that is there is accepted by its last schema,
and every property is there whose last entry is not optional. -/
theorem accepts_object (entries : List (String × NodeSchema)) :
    Accepts targets (object entries) data ↔ ∃ fields, data = .object fields ∧
      ∀ entry ∈ Table.lastEntries entries,
        (∀ value, Table.get? fields entry.1 = some value → Accepts targets entry.2.schema value) ∧
        (entry.2.isOptional = false → Table.has fields entry.1 = true) := by
  have listed (schema fields : Json.Fields) :
      (∀ entry ∈ if (required entries).isEmpty then []
          else [("required", Json.ofStrings (required entries))],
        Means targets schema entry.1 entry.2 (.object fields)) ↔
      Means targets schema "required" (.ofStrings (required entries)) (.object fields) := by
    cases keys : required entries with
    | nil => exact iff_of_true (List.forall_mem_nil _) rfl
    | cons first others => exact List.forall_mem_singleton
  unfold object
  dsimp only
  rw [List.append_assoc, accepts_typed_object (by split <;> rfl)]
  refine exists_congr fun fields => and_congr_right fun _ => ?_
  rw [List.forall_mem_append, List.forall_mem_singleton, means_properties, listed, means_required]
  exact ⟨fun h entry mem => ⟨h.1 entry mem, h.2 entry mem⟩,
    fun h => ⟨fun entry mem => (h entry mem).1, fun entry mem => (h entry mem).2⟩⟩

/-- A record accepts objects whose keys and values its schemas accept; a schema of keys counts only
if it restricts them. -/
theorem accepts_keyed (key value : Option NodeSchema) :
    Accepts targets (keyed key value) data ↔ ∃ fields, data = .object fields ∧
      (∀ c ∈ key, restrictsKeys c.schema = true → ∀ name ∈ Table.keys fields,
        Accepts targets c.schema (.string name)) ∧
      ∀ c ∈ value, ∀ entry ∈ fields, Accepts targets c.schema entry.2 := by
  have keys (c : NodeSchema) (schema fields : Json.Fields) :
      Means targets schema "propertyNames" c.toJson (.object fields) ↔
        ∀ name ∈ Table.keys fields, Accepts targets c.schema (.string name) :=
    forall_object_iff.trans exists_object_iff
  have values (c : NodeSchema) {schema : Json.Fields} (fields : Json.Fields)
      (alone : Table.get? schema "properties" = none) :
      Means targets schema "additionalProperties" c.toJson (.object fields) ↔
        ∀ entry ∈ fields, Accepts targets c.schema entry.2 := by
    refine forall_object_iff.trans (exists_object_iff.trans ?_)
    simp [propertySchema?, alone]
  have others (word : String) (new : word ∉ ["propertyNames", "additionalProperties"])
      (key value : Option Json) :
      Table.get? (optionally "propertyNames" key ++ optionally "additionalProperties" value) word =
        none := by
    simp only [List.mem_cons, List.not_mem_nil, or_false, not_or] at new
    cases key <;> cases value <;>
      simp [optionally, Table.get?_cons, Ne.symm new.1, Ne.symm new.2]
  rw [keyed, List.append_assoc, accepts_typed_object (others _ (by decide) _ _)]
  refine exists_congr fun fields => and_congr_right fun _ => ?_
  rw [List.forall_mem_append, forall_mem_optionally, forall_mem_optionally]
  refine and_congr ?_ ?_
  · simp only [Option.mem_def, Option.map_eq_some_iff, Option.filter_eq_some_iff]
    constructor
    · intro h c isKey restricts
      exact (keys ..).1 (h _ ⟨c, ⟨isKey, restricts⟩, rfl⟩)
    · rintro h _ ⟨c, ⟨isKey, restricts⟩, rfl⟩
      exact (keys ..).2 (h c isKey restricts)
  · simp only [Option.mem_def, Option.map_eq_some_iff]
    have alone := others "properties" (by decide)
    constructor
    · intro h c isValue
      exact (values c fields (alone ..)).1 (h _ ⟨c, isValue, rfl⟩)
    · rintro h _ ⟨c, isValue, rfl⟩
      exact (values c fields (alone ..)).2 (h c isValue)

end Structures

end SchemaBridge.Draft07
