import SchemaBridge.Draft07.Acceptance
import SchemaBridge.Proofs.Compile.Description
import SchemaBridge.Proofs.Draft07.Writing
import SchemaBridge.Proofs.Plan.Own

/-!
# The keywords of compiled schemas

A compiled schema has every keyword at most once, and only keywords of a fixed vocabulary. The
keywords that a document adds at its root are not among them, so that the schema of the root and the
definitions can be read back from a document.

## Main definitions

* `Compile.vocabulary` : the keywords that are written.
* `Compile.Tidy` : a schema has them at most once, and no others.

## Main results

* `Compile.tidy_invariant` : compiled schemas are tidy.
* `Compile.definitions_document`, `Compile.root_document` : the parts of a document.
-/

namespace SchemaBridge

namespace Compile

variable {π : Type}

/-- The keywords that compiled schemas are written with. -/
def vocabulary : List String :=
  ["$ref", "type", "format", "const", "enum", "not", "anyOf", "allOf", "properties", "required",
    "propertyNames", "additionalProperties", "items", "additionalItems", "minItems", "maxItems",
    "uniqueItems", "minimum", "maximum", "minLength", "maxLength", "minProperties", "maxProperties",
    "pattern", "title", "description", "default", "examples", "deprecated"]

/-- No keyword stands twice in the schema, and all belong to the vocabulary. -/
structure Tidy (schema : Json.Fields) : Prop where
  nodup : (Table.keys schema).Nodup
  known : Table.keys schema ⊆ vocabulary

theorem tidy_of_keys {schema : Json.Fields} (keywords : List String)
    (same : Table.keys schema = keywords) (h : keywords.Nodup ∧ keywords ⊆ vocabulary) :
    Tidy schema :=
  ⟨same ▸ h.1, same ▸ h.2⟩

theorem tidy_nil : Tidy [] := ⟨List.nodup_nil, List.nil_subset _⟩

theorem Tidy.put {schema : Json.Fields} (h : Tidy schema) {keyword : String} (value : Json)
    (known : keyword ∈ vocabulary) : Tidy (Table.put schema keyword value) where
  nodup := Table.nodup_keys_put schema keyword value h.nodup
  known := by
    rw [Table.keys_put]
    split
    · exact h.known
    · refine List.append_subset.2 ⟨h.known, fun key mem => ?_⟩
      rwa [List.mem_singleton.1 mem]

/-! ### Layers -/

theorem Tidy.write {schema : Json.Fields} (h : Tidy schema) (a : Annotations) :
    Tidy (a.write schema) := by
  have known : Annotations.keywords ⊆ vocabulary := by decide
  exact a.write_keeps (fun _ mem value _ tidy => tidy.put value (known mem)) h

theorem Tidy.writeConstraints {schema : Json.Fields} (h : Tidy schema) (c : Constraints)
    (family : BoundsFamily) : Tidy (Assembly.writeConstraints c family schema) := by
  have known : Constraints.keywords ⊆ vocabulary := by decide
  exact Assembly.writeConstraints_keeps (fun _ mem value _ tidy => tidy.put value (known mem)) c
    family h

/-- Layers keep a structure tidy. -/
theorem tidy_schema {f : Assembly} (h : Tidy f.body) : Tidy f.schema := by
  have alone (branches : Json) : Tidy [("anyOf", branches)] :=
    tidy_of_keys ["anyOf"] rfl (by decide)
  have wrapped (branches : Json) : Tidy [("allOf", branches)] :=
    tidy_of_keys ["allOf"] rfl (by decide)
  have constrained : Tidy f.constrained := by
    unfold Assembly.constrained
    dsimp only
    split
    · exact (wrapped _).writeConstraints _ _
    · exact h.writeConstraints _ _
  unfold Assembly.schema
  refine Tidy.write ?_ _
  split
  · unfold Assembly.orNull
    split <;> exact alone _
  · exact constrained

/-! ### Structures -/

/-- A schema that has the keywords of a structure is tidy. -/
theorem tidy_of_mem {schema : Json.Fields} (mem : Table.keys schema ∈ Structure.keywordLists) :
    Tidy schema := by
  have all : ∀ keywords ∈ Structure.keywordLists, keywords.Nodup ∧ keywords ⊆ vocabulary := by
    decide
  exact tidy_of_keys _ rfl (all _ mem)

theorem tidy_date (options : DocumentOptions) : Tidy (Structure.date options) :=
  tidy_of_keys ["type", "format"] rfl (by decide)

theorem tidy_tuple (items : List Json) (rest : Option Json) : Tidy (Structure.tuple items rest) :=
  tidy_of_mem (Structure.keys_tuple_mem items rest)

theorem tidy_object (entries : List (String × NodeSchema)) : Tidy (Structure.object entries) :=
  tidy_of_mem (Structure.keys_object_mem entries)

theorem tidy_keyed (key value : Option NodeSchema) : Tidy (Structure.keyed key value) :=
  tidy_of_mem (Structure.keys_keyed_mem key value)

/-- A structure is tidy if its parts are. -/
theorem tidy_of_yields {options : DocumentOptions} {node : Node π} {adapter : Adapter π}
    {shape : Shape} {assembly : Assembly}
    (h : Plan.Yields (fun _ c => Tidy c.schema) (Structure.ofShape options node adapter shape)
      assembly) : Tidy assembly.body := by
  rcases (Structure.consists_of_yields h).keys_cases with ⟨-, part, c, tidy, same⟩ | ⟨-, same⟩ | mem
  · rw [same]
    exact tidy
  · rw [same]
    exact tidy_date options
  · exact tidy_of_mem mem

/-- Compiled schemas are tidy. -/
theorem tidy_invariant (context : CompileContext π) (names : Table Identity String) :
    SchemaInvariant context names Tidy where
  empty := tidy_nil
  reference _ _ _ := tidy_of_keys ["$ref"] rfl (by decide)
  structured _ _ _ _ := tidy_of_yields
  layered _ := tidy_schema

/-! ### Documents -/

section Document

variable (options : DocumentOptions) {root : Json.Fields} (defs : Table String Json.Fields)

/-- What stands at the head of a document. -/
private def head : Json.Fields := options.schemaUri.toList.map fun uri => ("$schema", .string uri)

private theorem eq_of_mem_head {entry : String × Json} (mem : entry ∈ head options) :
    entry.1 = "$schema" := by
  obtain ⟨uri, -, rfl⟩ := List.mem_map.1 mem
  rfl

private theorem Tidy.notMem (h : Tidy root) {key : String} (other : key ∉ vocabulary) :
    key ∉ Table.keys root := fun mem => other (h.known mem)

private theorem notMem_head {key : String} (other : key ≠ "$schema") :
    key ∉ Table.keys (head options) := by
  intro mem
  obtain ⟨entry, isEntry, rfl⟩ := List.mem_map.1 mem
  exact other (eq_of_mem_head options isEntry)

/-- A document has what stands at its head, then the root, then the definitions. -/
private theorem document_eq (h : Tidy root) : document options root defs =
    .object (head options ++ root ++ if defs.isEmpty then [] else
      [("$defs", .object (defs.map fun entry => (entry.1, .object entry.2)))]) := by
  have body : root.foldl (fun t entry => Table.put t entry.1 entry.2) (head options) =
      head options ++ root := by
    refine Table.foldl_put_of_nodup ?_
    rw [Table.keys, List.map_append]
    refine List.nodup_append.2 ⟨?_, h.nodup, ?_⟩
    · cases same : options.schemaUri <;> simp [head, same]
    · rintro key mem _ mem' rfl
      obtain ⟨entry, isEntry, rfl⟩ := List.mem_map.1 mem
      rw [eq_of_mem_head options isEntry] at mem'
      exact h.notMem (by decide) mem'
  have absent : "$defs" ∉ Table.keys (head options ++ root) := by
    rw [Table.keys, List.map_append, List.mem_append]
    rintro (mem | mem)
    · exact notMem_head options (by decide) mem
    · exact h.notMem (by decide) mem
  have whole : document options root defs =
      .object (if defs.isEmpty then head options ++ root
        else Table.put (head options ++ root) "$defs"
          (.object (defs.map fun entry => (entry.1, .object entry.2)))) := by
    rw [← body]
    rfl
  rw [whole]
  split
  · rw [List.append_nil]
  · rw [Table.put_of_notMem _ absent]

/-- What stands under a keyword of the root of a document, unless it is one of the document's
own. -/
theorem get?_document (h : Tidy root) {keyword : String} (known : keyword ∈ vocabulary) :
    (document options root defs).get? keyword = Table.get? root keyword := by
  have notHead : Table.get? (head options) keyword = none := by
    refine (Table.get?_eq_none_iff ..).2 (notMem_head options ?_)
    rintro rfl
    revert known
    decide
  rw [document_eq options defs h, Json.get?, Table.get?_append, Table.get?_append, notHead,
    Option.none_or]
  split
  · exact Option.or_none
  · rw [Table.get?_cons, if_neg, Table.get?_nil, Option.or_none]
    rintro rfl
    revert known
    decide

private theorem get?_defs_head_append (h : Tidy root) :
    Table.get? (head options ++ root) "$defs" = none := by
  rw [Table.get?_append, (Table.get?_eq_none_iff ..).2 (notMem_head options (by decide)),
    (Table.get?_eq_none_iff ..).2 (h.notMem (by decide)), Option.none_or]

/-- What stands under `$defs`, if there is a definition. -/
theorem get?_defs_document (h : Tidy root) (nonempty : defs ≠ []) :
    (document options root defs).get? "$defs" =
      some (.object (defs.map fun entry => (entry.1, .object entry.2))) := by
  rw [document_eq options defs h, if_neg (by simpa using nonempty), Json.get?, Table.get?_append,
    get?_defs_head_append options h, Option.none_or]
  rfl

/-- Without a definition nothing stands under `$defs`. -/
theorem get?_defs_document_nil (h : Tidy root) :
    (document options root []).get? "$defs" = none := by
  rw [document_eq options [] h, if_pos List.isEmpty_nil, List.append_nil]
  exact get?_defs_head_append options h

/-- The definitions of a document are those that were put into it. -/
theorem definitions_document (h : Tidy root) :
    Draft07.definitions (document options root defs) = defs := by
  by_cases empty : defs = []
  · subst empty
    rw [Draft07.definitions, get?_defs_document_nil options h]
    rfl
  · rw [Draft07.definitions, get?_defs_document options defs h empty]
    change (defs.map fun entry => (entry.1, Json.object entry.2)).filterMap _ = defs
    rw [List.filterMap_map]
    exact List.filterMap_some

/-- The root of a document is what is left without `$schema` and `$defs`. -/
theorem root_document (h : Tidy root) :
    ∃ fields, document options root defs = .object fields ∧
      fields.filter (fun entry => entry.1 ≠ "$schema" && entry.1 ≠ "$defs") = root := by
  refine ⟨_, document_eq options defs h, ?_⟩
  rw [List.filter_append, List.filter_append]
  have noHead : (head options).filter
      (fun entry => entry.1 ≠ "$schema" && entry.1 ≠ "$defs") = [] := by
    refine List.filter_eq_nil_iff.2 fun entry mem => ?_
    simp [eq_of_mem_head options mem]
  have all : root.filter (fun entry => entry.1 ≠ "$schema" && entry.1 ≠ "$defs") = root := by
    refine List.filter_eq_self.2 fun entry mem => ?_
    have known := h.known (List.mem_map_of_mem mem)
    rw [Bool.and_eq_true, decide_eq_true_eq, decide_eq_true_eq]
    constructor <;> rintro same
    · rw [same] at known
      revert known
      decide
    · rw [same] at known
      revert known
      decide
  rw [noHead, all]
  split <;> simp

end Document

end Compile

end SchemaBridge
