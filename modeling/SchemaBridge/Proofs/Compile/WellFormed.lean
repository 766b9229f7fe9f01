import SchemaBridge.Proofs.Compile.References
import SchemaBridge.Proofs.Table.LastEntries

/-!
# Compiled documents are well-formed

Every schema inside a compiled document, at whatever position, has the form that draft 07 asks for:
it is an object without repeated keywords, the values of its keywords are of the right kind, lists
that must not be empty are not, and the keys that it requires are properties of its own, each listed
once. Nothing is said about the sizes in bounds and about the texts of patterns, formats and titles.

The keywords of a structure are put together from the schemas of the parts, and layers write
keywords into them or put them under a keyword; neither ever touches the properties or the required
keys of a structure. So the form is kept by compilation, from the parts to the whole.

## Main definitions

* `Draft07.FormedValue` : the value of a keyword is of the right kind.
* `Draft07.WellFormed` : a schema has the right form, apart from the schemas inside it.
* `Draft07.FormedThroughout` : and so have all schemas inside it.
* `Draft07.Formed` : the keywords of a schema, and what stands under them, are right.

## Main results

* `Assembly.formed_schema` : layers keep a structure right.
* `Structure.formed_of_yields` : a structure is right if its parts are.
* `Registry.document_wellFormed` : every schema inside a compiled document is well-formed.
-/

namespace SchemaBridge

namespace Draft07

/-- The words for types. -/
def typeWords : List String :=
  ["array", "boolean", "integer", "null", "number", "object", "string"]

/-- The value of a keyword is of the right kind. The schemas under a keyword are not looked at. -/
def FormedValue (keyword : String) (value : Json) : Prop :=
  match keyword with
  | "$schema" | "$ref" | "title" | "description" | "pattern" | "format" => value.isString = true
  | "type" => ∃ word ∈ typeWords, value = .string word
  | "enum" | "anyOf" | "allOf" => ∃ values, value = .array values ∧ values ≠ []
  | "items" => value.isObject = true ∨ ∃ positions, value = .array positions ∧ positions ≠ []
  | "properties" => value.isObject = true
  | "$defs" => ∃ defs, value = .object defs ∧ ∀ entry ∈ defs, entry.2.isObject = true
  | "examples" => value.isArray = true
  | "uniqueItems" | "deprecated" => value.isBool = true
  | _ => True

/-- The required keys of a schema are properties of its own, each listed once. -/
def RequiredListed (schema : Json.Fields) : Prop :=
  ∀ value, Table.get? schema "required" = some value →
    ∃ keys properties, value = .ofStrings keys ∧ keys.Nodup ∧
      Table.get? schema "properties" = some (.object properties) ∧
      ∀ key ∈ keys, Table.has properties key = true

/-- A schema has the right form, apart from the schemas inside it. -/
structure WellFormed (schema : Json.Fields) : Prop where
  nodup : (Table.keys schema).Nodup
  values : ∀ keyword value, Table.get? schema keyword = some value → FormedValue keyword value
  required : RequiredListed schema

/-- Every schema inside a schema is an object that has the right form. -/
def FormedThroughout (schema : Json) : Prop :=
  ∀ inner, Inside schema inner → ∃ fields, inner = .object fields ∧ WellFormed fields

/-- The value of a keyword is of the right kind, and so are all schemas under it. -/
structure FormedEntry (keyword : String) (value : Json) : Prop where
  formed : FormedValue keyword value
  parts : ∀ part ∈ keywordParts keyword value, FormedThroughout part

/-- The keywords of a schema, and what stands under them, are right. -/
structure Formed (schema : Json.Fields) : Prop where
  nodup : (Table.keys schema).Nodup
  entries : ∀ entry ∈ schema, FormedEntry entry.1 entry.2
  required : RequiredListed schema

theorem Formed.wellFormed {schema : Json.Fields} (h : Formed schema) : WellFormed schema where
  nodup := h.nodup
  values _ _ found := (h.entries _ (Table.mem_of_get? found)).formed
  required := h.required

/-- A schema of which all keywords are right is right throughout. -/
theorem Formed.throughout {schema : Json.Fields} (h : Formed schema) :
    FormedThroughout (.object schema) := by
  refine throughout_of_parts h.wellFormed fun part isPart => ?_
  obtain ⟨entry, mem, isPart⟩ := mem_parts_iff.1 isPart
  exact (h.entries entry mem).parts part isPart

/-! ### Keywords that are written -/

/-- A keyword that has no schemas in it. -/
theorem FormedEntry.of_inert {keyword : String} {value : Json} (inert : keyword ∉ applicators)
    (formed : FormedValue keyword value) : FormedEntry keyword value where
  formed := formed
  parts part mem := by
    rw [keywordParts_eq_nil inert] at mem
    cases mem

theorem formed_nil : Formed [] := ⟨List.nodup_nil, nofun, nofun⟩

theorem formed_singleton {keyword : String} {value : Json} (free : keyword ≠ "required")
    (h : FormedEntry keyword value) : Formed [(keyword, value)] where
  nodup := List.nodup_singleton _
  entries entry mem := by
    obtain rfl := List.mem_singleton.1 mem
    exact h
  required other found := by
    rw [Table.get?_cons, if_neg free] at found
    cases found

/-- A keyword is written into a schema, if it is none of the two that belong together. -/
theorem Formed.put {schema : Json.Fields} (h : Formed schema) {keyword : String} {value : Json}
    (free : keyword ∉ ["required", "properties"]) (entry : FormedEntry keyword value) :
    Formed (Table.put schema keyword value) where
  nodup := Table.nodup_keys_put schema keyword value h.nodup
  entries other mem := by
    rcases Table.mem_of_mem_put mem with before | rfl
    · exact h.entries other before
    · exact entry
  required := by
    simp only [List.mem_cons, List.not_mem_nil, or_false, not_or] at free
    rw [RequiredListed, Table.get?_put_of_ne _ _ free.1, Table.get?_put_of_ne _ _ free.2]
    exact h.required

/-- Keywords without schemas in them are written, if there are right values for them. -/
theorem Formed.writeAll {schema : Json.Fields} (h : Formed schema)
    {entries : List (String × Option Json)}
    (free : ∀ keyword ∈ entries.map Prod.fst, keyword ∉ "required" :: "properties" :: applicators)
    (formed : ∀ entry ∈ entries, ∀ value ∈ entry.2, FormedValue entry.1 value) :
    Formed (Table.writeAll schema entries) := by
  refine Table.writeAll_keeps (fun entry mem value written _ before => ?_) h
  have other := free entry.1 (List.mem_map_of_mem mem)
  rw [List.mem_cons, List.mem_cons, not_or, not_or] at other
  obtain ⟨notRequired, notProperties, inert⟩ := other
  refine before.put ?_ (.of_inert inert (formed entry mem value written))
  simp [notRequired, notProperties]

end Draft07

open Draft07

variable {π : Type}

/-! ### Layers -/

namespace Assembly

private theorem isString_map (text : Option String) :
    ∀ value ∈ text.map Json.string, value.isString = true := by
  cases text with
  | none => exact nofun
  | some text =>
    rintro _ ⟨⟩
    rfl

theorem formed_write (a : Annotations) {schema : Json.Fields} (h : Formed schema) :
    Formed (a.write schema) := by
  have free : ∀ keyword ∈ Annotations.keywords,
      keyword ∉ "required" :: "properties" :: applicators := by decide
  rw [Annotations.write_eq]
  refine h.writeAll (a.keys_entries ▸ free) fun entry mem value written => ?_
  simp only [Annotations.entries, List.mem_cons, List.not_mem_nil, or_false] at mem
  rcases mem with rfl | rfl | rfl | rfl | rfl
  · exact isString_map a.title value written
  · exact isString_map a.description value written
  · trivial
  · dsimp only at written
    split at written <;> cases written
    rfl
  · dsimp only at written
    split at written <;> cases written
    rfl

theorem formed_writeConstraints (c : Constraints) (family : BoundsFamily) {schema : Json.Fields}
    (h : Formed schema) : Formed (writeConstraints c family schema) := by
  have free : ∀ keyword ∈ Constraints.keywords,
      keyword ∉ "required" :: "properties" :: applicators := by decide
  rw [writeConstraints_eq]
  refine h.writeAll (fun keyword mem => free keyword (c.keys_entries_subset family mem))
    fun entry mem value written => ?_
  simp only [Constraints.entries, List.mem_cons, List.not_mem_nil, or_false] at mem
  -- Any value will do for a bound; the other two are texts.
  rcases mem with rfl | rfl | rfl | rfl | rfl | rfl
  iterate 4 cases family <;> trivial
  · exact isString_map c.pattern value written
  · exact isString_map c.format value written

theorem formed_nullSchema : FormedThroughout nullSchema :=
  (formed_singleton (by decide)
    (.of_inert (by decide) ⟨"null", by decide, rfl⟩) : Formed [("type", .string "null")]).throughout

/-- Branches under a keyword are right if each of them is. -/
theorem formedEntry_branches {keyword : String} (several : keyword ∈ ["anyOf", "allOf"])
    {branches : List Json} (nonempty : branches ≠ [])
    (each : ∀ branch ∈ branches, FormedThroughout branch) :
    FormedEntry keyword (.array branches) := by
  simp only [List.mem_cons, List.not_mem_nil, or_false] at several
  rcases several with rfl | rfl <;> exact ⟨⟨branches, rfl, nonempty⟩, each⟩

theorem formed_orNull {schema : Json.Fields} (h : Formed schema) : Formed (orNull schema) := by
  unfold orNull
  split
  next branches =>
    obtain ⟨⟨_, ⟨⟩, nonempty⟩, parts⟩ := h.entries _ (List.mem_singleton_self _)
    refine formed_singleton (by decide) (formedEntry_branches (by decide) ?_ fun branch mem => ?_)
    · split
      · exact nonempty
      · exact List.append_ne_nil_of_left_ne_nil nonempty _
    · split at mem
      · exact parts branch mem
      · rcases List.mem_append.1 mem with mem | mem
        · exact parts branch mem
        · obtain rfl := List.mem_singleton.1 mem
          exact formed_nullSchema
  next =>
    refine formed_singleton (by decide)
      (formedEntry_branches (by decide) (List.cons_ne_nil _ _) fun branch mem => ?_)
    simp only [List.mem_cons, List.not_mem_nil, or_false] at mem
    rcases mem with rfl | rfl
    · exact h.throughout
    · exact formed_nullSchema

theorem formed_constrained {f : Assembly} (h : Formed f.body) : Formed f.constrained := by
  unfold constrained
  dsimp only
  split
  · refine formed_writeConstraints _ _ (formed_singleton (by decide)
      (formedEntry_branches (by decide) (List.cons_ne_nil _ _) fun branch mem => ?_))
    obtain rfl := List.mem_singleton.1 mem
    exact h.throughout
  · exact formed_writeConstraints _ _ h

/-- Layers keep a structure right. -/
theorem formed_schema {f : Assembly} (h : Formed f.body) : Formed f.schema := by
  unfold schema
  refine formed_write _ ?_
  split
  · exact formed_orNull (formed_constrained h)
  · exact formed_constrained h

end Assembly

/-! ### Structures -/

namespace Structure

theorem formedEntry_type {word : String} (known : word ∈ typeWords) :
    FormedEntry "type" (.string word) :=
  .of_inert (by decide) ⟨word, known, rfl⟩

theorem formed_typed {word : String} (known : word ∈ typeWords) : Formed (typed word) :=
  formed_singleton (by decide) (formedEntry_type known)

theorem formed_nothing : Formed nothing := by
  refine formed_singleton (by decide) ⟨trivial, fun part mem => ?_⟩
  obtain rfl := List.mem_singleton.1 mem
  exact formed_nil.throughout

/-- A schema with a type and keywords that do not require keys. -/
theorem formed_of_type {word : String} (known : word ∈ typeWords) {rest : Json.Fields}
    (tidy : Compile.Tidy (typed word ++ rest)) (free : Table.get? rest "required" = none)
    (entries : ∀ entry ∈ rest, FormedEntry entry.1 entry.2) : Formed (typed word ++ rest) where
  nodup := tidy.nodup
  entries entry mem := by
    rcases List.mem_cons.1 mem with rfl | mem
    · exact formedEntry_type known
    · exact entries entry mem
  required value found := by cases free.symm.trans found

theorem formed_date (options : DocumentOptions) : Formed (date options) := by
  refine formed_of_type (by decide) (Compile.tidy_date options) rfl fun entry mem => ?_
  obtain rfl := List.mem_singleton.1 mem
  have text : FormedEntry "format" (.string options.dateFormat) := .of_inert (by decide) rfl
  exact text

/-- A keyword whose value is one schema. -/
theorem formedEntry_one {keyword : String} {schema : Json.Fields}
    (single : keyword ∈ ["items", "additionalItems", "additionalProperties", "propertyNames"])
    (h : Formed schema) : FormedEntry keyword (.object schema) := by
  have parts : ∀ part ∈ [Json.object schema], FormedThroughout part := fun part mem =>
    List.mem_singleton.1 mem ▸ h.throughout
  simp only [List.mem_cons, List.not_mem_nil, or_false] at single
  rcases single with rfl | rfl | rfl | rfl
  · exact ⟨.inl rfl, parts⟩
  · exact ⟨trivial, parts⟩
  · exact ⟨trivial, parts⟩
  · exact ⟨trivial, parts⟩

/-- A keyword whose value is a list of schemas that is not empty. -/
theorem formedEntry_list {keyword : String} {cs : List NodeSchema}
    (several : keyword ∈ ["items", "anyOf", "allOf"]) (nonempty : cs ≠ [])
    (h : ∀ c ∈ cs, Formed c.schema) : FormedEntry keyword (.array (cs.map NodeSchema.toJson)) := by
  have schemas : cs.map NodeSchema.toJson ≠ [] := by simpa using nonempty
  have parts : ∀ part ∈ cs.map NodeSchema.toJson, FormedThroughout part := by
    intro part mem
    obtain ⟨c, isPart, rfl⟩ := List.mem_map.1 mem
    exact (h c isPart).throughout
  simp only [List.mem_cons, List.not_mem_nil, or_false] at several
  rcases several with rfl | rfl | rfl
  · exact ⟨.inr ⟨_, rfl, schemas⟩, parts⟩
  · exact ⟨⟨_, rfl, schemas⟩, parts⟩
  · exact ⟨⟨_, rfl, schemas⟩, parts⟩

theorem formedEntry_optionally {keyword : String} {c : Option NodeSchema}
    (single : keyword ∈ ["items", "additionalItems", "additionalProperties", "propertyNames"])
    (h : ∀ c' ∈ c, Formed c'.schema) :
    ∀ entry ∈ optionally keyword (c.map NodeSchema.toJson), FormedEntry entry.1 entry.2 := by
  cases c with
  | none => exact nofun
  | some c =>
    intro entry mem
    obtain rfl := List.mem_singleton.1 mem
    exact formedEntry_one single (h c rfl)

theorem formed_keyed {key value : Option NodeSchema} (hkey : ∀ c ∈ key, Formed c.schema)
    (hvalue : ∀ c ∈ value, Formed c.schema) : Formed (keyed key value) := by
  have tidy := Compile.tidy_keyed key value
  rw [keyed, List.append_assoc] at tidy ⊢
  refine formed_of_type (by decide) tidy ?_ fun entry mem => ?_
  · rw [Table.get?_append, get?_optionally, get?_optionally, if_neg (by decide), if_neg (by decide)]
    rfl
  · rcases List.mem_append.1 mem with mem | mem
    · exact formedEntry_optionally (by decide)
        (fun c mem => hkey c (Option.mem_filter_iff.1 mem).1) entry mem
    · exact formedEntry_optionally (by decide) hvalue entry mem

theorem formed_tuple {items : List NodeSchema} {rest : Option NodeSchema}
    (hitems : ∀ c ∈ items, Formed c.schema) (hrest : ∀ c ∈ rest, Formed c.schema) :
    Formed (tuple (items.map NodeSchema.toJson) (rest.map NodeSchema.toJson)) := by
  have atLeast (n : Nat) : FormedEntry "minItems" (.ofNat n) := .of_inert (by decide) trivial
  have atMost (n : Nat) : FormedEntry "maxItems" (.ofNat n) := .of_inert (by decide) trivial
  have tidy := Compile.tidy_tuple (items.map NodeSchema.toJson) (rest.map NodeSchema.toJson)
  cases items with
  | nil =>
    cases rest with
    | none => exact formed_of_type (by decide) tidy rfl (List.forall_mem_singleton.2 (atMost 0))
    | some c =>
      have all : FormedEntry "items" c.toJson := formedEntry_one (by decide) (hrest c rfl)
      exact formed_of_type (by decide) tidy rfl (List.forall_mem_singleton.2 all)
  | cons first others =>
    have list := formedEntry_list (by decide : "items" ∈ ["items", "anyOf", "allOf"])
      (List.cons_ne_nil _ _) hitems
    cases rest with
    | none =>
      exact formed_of_type (by decide) tidy rfl (List.forall_mem_cons.2 ⟨list,
        List.forall_mem_cons.2 ⟨atLeast _, List.forall_mem_singleton.2 (atMost _)⟩⟩)
    | some c =>
      have more : FormedEntry "additionalItems" c.toJson :=
        formedEntry_one (by decide) (hrest c rfl)
      exact formed_of_type (by decide) tidy rfl (List.forall_mem_cons.2 ⟨list,
        List.forall_mem_cons.2 ⟨more, List.forall_mem_singleton.2 (atLeast _)⟩⟩)

/-- Items of one schema, perhaps without repetitions. -/
theorem formed_array (unique : Json.Fields)
    (isUnique : unique = [] ∨ unique = [("uniqueItems", .bool true)])
    {c : Option NodeSchema} (h : ∀ c' ∈ c, Formed c'.schema) :
    Formed (typed "array" ++ unique ++ optionally "items" (c.map NodeSchema.toJson)) := by
  have distinct : FormedEntry "uniqueItems" (.bool true) := .of_inert (by decide) rfl
  rw [List.append_assoc]
  refine formed_of_type (by decide) ?_ ?_ fun entry mem => ?_
  · rcases isUnique with rfl | rfl <;> cases c
    · exact Compile.tidy_of_keys ["type"] rfl (by decide)
    · exact Compile.tidy_of_keys ["type", "items"] rfl (by decide)
    · exact Compile.tidy_of_keys ["type", "uniqueItems"] rfl (by decide)
    · exact Compile.tidy_of_keys ["type", "uniqueItems", "items"] rfl (by decide)
  · rw [Table.get?_append, get?_optionally, if_neg (by decide)]
    rcases isUnique with rfl | rfl <;> rfl
  · rcases List.mem_append.1 mem with mem | mem
    · rcases isUnique with rfl | rfl
      · cases mem
      · obtain rfl := List.mem_singleton.1 mem
        exact distinct
    · exact formedEntry_optionally (by decide) h entry mem

/-- The required keys of an object are properties, each listed once. -/
theorem requiredListed_object (entries : List (String × NodeSchema)) :
    RequiredListed (object entries) := by
  intro value found
  have isRequired : value = .ofStrings (required entries) := by
    rw [object] at found
    split at found
    · cases found
    · exact (Option.some.inj found).symm
  refine ⟨required entries, _, isRequired, ?_, rfl, fun key mem => ?_⟩
  · rw [required_eq]
    exact (Table.nodup_keys_lastEntries entries).sublist (List.filter_sublist.map Prod.fst)
  · rw [required_eq] at mem
    obtain ⟨⟨_, c⟩, isLast, rfl⟩ := List.mem_map.1 mem
    have last : (_, c) ∈ Table.lastEntries entries := (List.mem_filter.1 isLast).1
    have property := List.mem_map_of_mem (f := fun entry => (entry.1, entry.2.toJson)) last
    rw [← Table.lastEntries_map NodeSchema.toJson, ← Table.get?_ofList_iff] at property
    rw [Table.has, property]
    rfl

theorem formed_object {entries : List (String × NodeSchema)}
    (h : ∀ entry ∈ entries, Formed entry.2.schema) : Formed (object entries) where
  nodup := (Compile.tidy_object entries).nodup
  required := requiredListed_object entries
  entries := by
    have properties : FormedEntry "properties"
        (.object (Table.ofList (entries.map fun entry => (entry.1, entry.2.toJson)))) := by
      refine ⟨rfl, fun part mem => ?_⟩
      obtain ⟨property, isProperty, rfl⟩ := List.mem_map.1 mem
      obtain ⟨entry, isEntry, rfl⟩ := List.mem_map.1 (Table.mem_of_mem_ofList isProperty)
      exact (h entry isEntry).throughout
    have always : FormedEntry "type" (.string "object") := formedEntry_type (by decide)
    unfold object
    dsimp only
    split
    · exact List.forall_mem_cons.2 ⟨always, List.forall_mem_singleton.2 properties⟩
    · have listed : FormedEntry "required" (.ofStrings (required entries)) :=
        .of_inert (by decide) trivial
      exact List.forall_mem_cons.2 ⟨always,
        List.forall_mem_cons.2 ⟨properties, List.forall_mem_singleton.2 listed⟩⟩

/-- A structure is right if its parts are. -/
theorem formed_of_yields {options : DocumentOptions} {node : Node π} {adapter : Adapter π}
    {shape : Shape} {assembly : Assembly}
    (h : Plan.Yields (fun _ c => Formed c.schema) (ofShape options node adapter shape) assembly) :
    Formed assembly.body := by
  have all {nodes : List (Node π)} {cs : List NodeSchema}
      (h : List.Forall₂ (fun _ c => Formed c.schema) nodes cs) : ∀ c ∈ cs, Formed c.schema :=
    Plan.forall_of_forall₂ (P := fun c : NodeSchema => Formed c.schema) (fun _ _ h => h) h
  have one {node : Option (Node π)} {c : Option NodeSchema}
      (h : Option.Rel (fun _ c => Formed c.schema) node c) : ∀ c' ∈ c, Formed c'.schema :=
    Plan.forall_of_rel (P := fun c : NodeSchema => Formed c.schema) (fun _ _ h => h) h
  cases consists_of_yields h with
  | literal =>
    cases adapter.literal node with
    | none => exact formed_nil
    | some value =>
      have anything : FormedEntry "const" value := .of_inert (by decide) trivial
      exact formed_singleton (by decide) anything
  | noValues | nothing => exact formed_nothing
  | enumeration nonempty =>
    have values : FormedEntry "enum" (.array (adapter.values node)) :=
      .of_inert (by decide) ⟨_, rfl, nonempty⟩
    exact formed_singleton (by decide) values
  | date => exact formed_date options
  | typed isWord =>
    have known : ∀ entry ∈ typeShapes, entry.2 ∈ typeWords := by decide
    exact formed_typed (known _ isWord)
  | anything => exact formed_nil
  | promise _ formed | only _ formed => exact formed
  | union _ parts =>
    dsimp only [union]
    split
    · exact formed_nothing
    · rename_i nonempty
      exact formed_singleton (by decide)
        (formedEntry_list (by decide) (by simpa using nonempty) (all parts))
  | intersection _ parts =>
    dsimp only [intersection]
    split
    · exact formed_nil
    · rename_i nonempty
      exact formed_singleton (by decide)
        (formedEntry_list (by decide) (by simpa using nonempty) (all parts))
  | tuple _ parts _ rest => exact formed_tuple (all parts) (one rest)
  | object _ parts =>
    exact formed_object (Plan.forall_of_forall₂
      (P := fun entry : String × NodeSchema => Formed entry.2.schema) (fun _ _ h => h.2) parts)
  | array _ element => exact formed_array [] (.inl rfl) (one element)
  | set _ element => exact formed_array _ (.inr rfl) (one element)
  | record _ _ key value | map _ _ key value => exact formed_keyed (one key) (one value)

end Structure

/-! ### Documents -/

namespace Compile

/-- Compiled schemas are right. -/
theorem formed_invariant (context : CompileContext π) (names : Table Identity String) :
    SchemaInvariant context names Formed where
  empty := formed_nil
  reference id name named := by
    have pointer : FormedEntry "$ref" (.string ("#/$defs/" ++ name)) := .of_inert (by decide) rfl
    exact formed_singleton (by decide) pointer
  structured _ _ _ _ := Structure.formed_of_yields
  layered _ := Assembly.formed_schema

/-- A document is right if its root is. -/
theorem formed_document (options : DocumentOptions) {root : Json.Fields}
    (defs : Table String Json.Fields) (h : Formed root) (tidy : Tidy root) :
    ∃ fields, document options root defs = .object fields ∧ Formed fields := by
  have dialect {entry : String × Json}
      (mem : entry ∈ options.schemaUri.toList.map fun uri => ("$schema", Json.string uri)) :
      FormedEntry entry.1 entry.2 := by
    obtain ⟨uri, -, rfl⟩ := List.mem_map.1 mem
    have text : FormedEntry "$schema" (.string uri) := .of_inert (by decide) rfl
    exact text
  have defined : FormedEntry "$defs"
      (.object (defs.map fun entry => (entry.1, .object entry.2))) := by
    refine .of_inert (by decide) ⟨_, rfl, fun entry mem => ?_⟩
    obtain ⟨definition, -, rfl⟩ := List.mem_map.1 mem
    rfl
  refine ⟨_, rfl, ?_, ?_, fun value found => ?_⟩
  · have body := Table.nodup_keys_foldl_put root (t := options.schemaUri.toList.map fun uri =>
      ("$schema", Json.string uri)) (by cases options.schemaUri <;> simp)
    split
    · exact body
    · exact Table.nodup_keys_put _ _ _ body
  · have body : ∀ entry ∈ root.foldl (fun t entry => Table.put t entry.1 entry.2)
        (options.schemaUri.toList.map fun uri => ("$schema", .string uri)),
        FormedEntry entry.1 entry.2 := fun entry mem =>
      (Table.mem_of_mem_foldl_put mem).elim dialect (h.entries entry)
    intro entry mem
    split at mem
    · exact body entry mem
    · rcases Table.mem_of_mem_put mem with mem | rfl
      · exact body entry mem
      · exact defined
  · -- The root keeps what it has under the two keywords.
    have same (keyword : String) (known : keyword ∈ vocabulary) :=
      get?_document options defs tidy known
    have required := same "required" (by decide)
    have properties := same "properties" (by decide)
    rw [document, Json.get?] at required properties
    obtain ⟨keys, listed, isList, nodup, found', all⟩ :=
      h.required value (required.symm.trans found)
    exact ⟨keys, listed, isList, nodup, properties.trans found', all⟩

end Compile

namespace Registry

open Compile

/-- Every schema inside a compiled document or one of its definitions, the document itself included,
is an object that is well-formed. -/
theorem document_wellFormed (registry : Registry π) (options : DocumentOptions) (node : Node π)
    (supply : Nat) {schema : Json}
    (inside : InDocument (registry.compile options node supply).1.value schema) :
    ∃ fields, schema = .object fields ∧ WellFormed fields := by
  have kept := formed_invariant ⟨registry, options⟩ (registry.books options node supply).names
  have root := registry.schema_root options node supply kept
  have tidy := registry.schema_root options node supply (tidy_invariant _ _)
  rcases inside with inRoot | ⟨name, definition, mem, inDefinition⟩
  · obtain ⟨fields, isObject, formed⟩ := formed_document options
      (registry.books options node supply).definitions root tidy
    rw [value_compile, isObject] at inRoot
    exact formed.throughout schema inRoot
  · rw [definitions_compile] at mem
    have found := Table.get?_of_mem (registry.trusted_books options node supply).distinct mem
    exact (registry.schema_definition options node supply kept found).throughout schema inDefinition

/-- The items of a list of itself are well-formed. -/
theorem selfList_wellFormed :
    Inside selfListDocument (.object [("$ref", .string (pointer "List"))]) ∧
      ∃ fields, Json.object [("$ref", .string (pointer "List"))] = .object fields ∧
        WellFormed fields := by
  have items : parts selfListDocument = [.object [("$ref", .string (pointer "List"))]] := rfl
  have inside : Inside selfListDocument (.object [("$ref", .string (pointer "List"))]) :=
    .step (items ▸ List.mem_singleton_self _) (.refl _)
  exact ⟨inside, document_wellFormed selfList {} ⟨⟨0⟩, "list", ()⟩ 1 (.inl inside)⟩

end Registry

end SchemaBridge
