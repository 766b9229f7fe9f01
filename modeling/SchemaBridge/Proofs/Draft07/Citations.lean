import SchemaBridge.Proofs.Draft07.Closure
import SchemaBridge.Proofs.Table.LastEntries

/-!
# Where references are kept

A schema cites a name if a reference to it stands somewhere inside. Keywords without schemas in them
take no citation away, so a structure with its layers cites what the bare structure cites; and a
structure cites what its parts cite, but for a schema of keys that restricts none, and for an entry
that is replaced by a later one of the same key.

## Main definitions

* `Draft07.Cites` : a reference to a name stands inside a schema.

## Main results

* `Assembly.cites_schema` : layers keep the citations of a structure.
* `Structure.cites_object`, `Structure.cites_keyed_key` : the citations of the last entries of an
  object, and of a schema of keys that restricts them.
-/

namespace SchemaBridge

namespace Draft07

/-- A reference to a name stands somewhere inside a schema. -/
def Cites (schema : Json) (name : String) : Prop :=
  ∃ inner, Inside schema inner ∧ RefersTo inner name

section

variable {schema : Json.Fields} {name keyword : String}

theorem cites_of_part {value part : Json} (mem : (keyword, value) ∈ schema)
    (isPart : part ∈ keywordParts keyword value) (h : Cites part name) :
    Cites (.object schema) name := by
  obtain ⟨inner, inside, refers⟩ := h
  exact ⟨inner, .step (List.mem_flatMap.2 ⟨_, mem, isPart⟩) inside, refers⟩

theorem cites_cases (h : Cites (.object schema) name) :
    RefersTo (.object schema) name ∨ ∃ keyword value part, (keyword, value) ∈ schema ∧
      part ∈ keywordParts keyword value ∧ Cites part name := by
  obtain ⟨inner, inside, refers⟩ := h
  cases inside with
  | refl => exact .inl refers
  | step isPart inside =>
    obtain ⟨⟨keyword, value⟩, mem, isPart⟩ := List.mem_flatMap.1 isPart
    exact .inr ⟨keyword, value, _, mem, isPart, inner, inside, refers⟩

/-- A keyword without schemas in it takes no citation away. -/
theorem Cites.put (h : Cites (.object schema) name) (inert : keyword ∉ "$ref" :: applicators)
    (value : Json) : Cites (.object (Table.put schema keyword value)) name := by
  obtain ⟨plain, inert⟩ := not_or.1 (mt List.mem_cons.2 inert)
  rcases cites_cases h with refers | ⟨other, given, part, mem, isPart, cites⟩
  · exact ⟨_, .refl _, (Table.get?_put_of_ne schema value plain).trans refers⟩
  · by_cases same : other = keyword
    · rw [same, keywordParts_eq_nil inert] at isPart
      cases isPart
    · exact cites_of_part (Table.mem_put_of_ne mem same) isPart cites

end

end Draft07

open Draft07

variable {name : String}

/-! ### Layers -/

namespace Assembly

variable {schema : Json.Fields} (h : Cites (.object schema) name)
include h

theorem cites_write (a : Annotations) : Cites (.object (a.write schema)) name := by
  have inert : ∀ keyword ∈ Annotations.keywords, keyword ∉ "$ref" :: applicators := by decide
  exact a.write_keeps (P := fun schema => Cites (.object schema) name)
    (fun _ mem value _ cites => cites.put (inert _ mem) value) h

theorem cites_writeConstraints (c : Constraints) (family : BoundsFamily) :
    Cites (.object (writeConstraints c family schema)) name := by
  have inert : ∀ keyword ∈ Constraints.keywords, keyword ∉ "$ref" :: applicators := by decide
  exact writeConstraints_keeps (P := fun schema => Cites (.object schema) name)
    (fun _ mem value _ cites => cites.put (inert _ mem) value) c family h

theorem cites_orNull : Cites (.object (orNull schema)) name := by
  unfold orNull
  split
  next branches =>
    rcases cites_cases h with refers | ⟨keyword, value, part, mem, isPart, cites⟩
    · cases refers
    · obtain ⟨rfl, rfl⟩ := Prod.mk.inj (List.mem_singleton.1 mem)
      refine cites_of_part (List.mem_singleton_self _) (?_ : part ∈ _) cites
      simp only [keywordParts] at isPart ⊢
      split
      · exact isPart
      · exact List.mem_append_left _ isPart
  next => exact cites_of_part (List.mem_singleton_self _) List.mem_cons_self h

omit h

theorem cites_constrained {f : Assembly} (h : Cites (.object f.body) name) :
    Cites (.object f.constrained) name := by
  unfold constrained
  dsimp only
  split
  · have inside : Cites (.object [("allOf", .array [.object f.body])]) name :=
      cites_of_part (List.mem_singleton_self _) (List.mem_singleton_self _) h
    exact cites_writeConstraints inside _ _
  · exact cites_writeConstraints h _ _

/-- Layers keep the citations of a structure. -/
theorem cites_schema {f : Assembly} (h : Cites (.object f.body) name) :
    Cites (.object f.schema) name := by
  refine cites_write ?_ _
  split
  · exact cites_orNull (cites_constrained h)
  · exact cites_constrained h

end Assembly

/-! ### Structures -/

namespace Structure

variable {c : NodeSchema} (h : Cites c.toJson name)
include h

theorem cites_union {cs : List NodeSchema} (mem : c ∈ cs) : Cites (.object (union cs)) name := by
  rw [union, if_neg (by simpa using List.ne_nil_of_mem mem)]
  exact cites_of_part (List.mem_singleton_self _) (List.mem_map_of_mem mem) h

theorem cites_intersection {cs : List NodeSchema} (mem : c ∈ cs) :
    Cites (.object (intersection cs)) name := by
  rw [intersection, if_neg (by simpa using List.ne_nil_of_mem mem)]
  exact cites_of_part (List.mem_singleton_self _) (List.mem_map_of_mem mem) h

theorem cites_position {items : List NodeSchema} (rest : Option Json) (mem : c ∈ items) :
    Cites (.object (tuple (items.map NodeSchema.toJson) rest)) name := by
  obtain ⟨first, others, rfl⟩ := List.exists_cons_of_ne_nil (List.ne_nil_of_mem mem)
  have isItem : c.toJson ∈ (first :: others).map NodeSchema.toJson := List.mem_map_of_mem mem
  cases rest <;>
    exact cites_of_part (List.mem_cons_of_mem _ List.mem_cons_self) isItem h

theorem cites_rest (items : List NodeSchema) :
    Cites (.object (tuple (items.map NodeSchema.toJson) (some c.toJson))) name := by
  cases items with
  | nil =>
    exact cites_of_part (List.mem_cons_of_mem _ List.mem_cons_self) (List.mem_singleton_self _) h
  | cons first others =>
    exact cites_of_part (List.mem_cons_of_mem _ (List.mem_cons_of_mem _ List.mem_cons_self))
      (List.mem_singleton_self _) h

/-- An object cites what the last entry of a key cites. -/
theorem cites_object {entries : List (String × NodeSchema)} {key : String}
    (mem : (key, c) ∈ Table.lastEntries entries) : Cites (.object (object entries)) name := by
  have property : (key, c.toJson) ∈
      Table.ofList (entries.map fun entry => (entry.1, entry.2.toJson)) := by
    refine Table.mem_of_get? (Table.get?_ofList_iff.2 ?_)
    rw [Table.lastEntries_map NodeSchema.toJson]
    exact List.mem_map_of_mem
      (f := fun entry : String × NodeSchema => (entry.1, entry.2.toJson)) mem
  refine cites_of_part (List.mem_append_left _ (List.mem_append_right _ List.mem_cons_self)) ?_ h
  exact List.mem_map_of_mem (f := Prod.snd) property

theorem cites_items (before : Json.Fields) :
    Cites (.object (before ++ optionally "items" (some c.toJson))) name :=
  cites_of_part (List.mem_append_right _ List.mem_cons_self) (List.mem_singleton_self _) h

/-- A record or a map cites what a schema of keys cites that restricts them. -/
theorem cites_keyed_key (value : Option NodeSchema) (restricts : restrictsKeys c.schema = true) :
    Cites (.object (keyed (some c) value)) name := by
  have kept : (some c).filter (fun k => restrictsKeys k.schema) = some c := by simp [restricts]
  rw [keyed, kept]
  exact cites_of_part (List.mem_append_left _ (List.mem_append_right _ List.mem_cons_self))
    (List.mem_singleton_self _) h

theorem cites_keyed_value (key : Option NodeSchema) : Cites (.object (keyed key (some c))) name :=
  cites_of_part (List.mem_append_right _ List.mem_cons_self) (List.mem_singleton_self _) h

end Structure

end SchemaBridge
