import SchemaBridge.Proofs.Compile.Definitions
import SchemaBridge.Proofs.Compile.ReferenceBounds
import SchemaBridge.Proofs.Draft07.Parts

/-!
# No keyword is shadowed by a reference

In draft 07 the keywords beside a `$ref` mean nothing. A compiled schema never has any: whenever a
constraint, an annotation or a null branch goes onto a reference, the reference moves under a
keyword of its own first. A node that stands for a part may have the reference of the part as its
structure, and layers of its own around it, so this is kept through any number of layers and of such
nodes.

## Main definitions

* `Draft07.Unshadowed` : nothing stands beside the reference of a schema, if it is one.
* `Compile.InBody` : the schemas inside the root of a document, without what is added at the root,
  and those inside the definitions.

## Main results

* `Assembly.unshadowed_schema` : layers put nothing beside a reference.
* `Registry.reference_alone` : every reference inside a document stands alone.
-/

namespace SchemaBridge

namespace Draft07

/-- If the schema is a reference, it has no other keyword. -/
def Unshadowed (schema : Json.Fields) : Prop :=
  ∀ value, Table.get? schema "$ref" = some value → schema = [("$ref", value)]

variable {schema : Json.Fields}

theorem unshadowed_of_plain (plain : Table.get? schema "$ref" = none) : Unshadowed schema :=
  fun _ found => nomatch plain.symm.trans found

theorem unshadowed_of_brings {source : Json → Prop} (h : ∀ entry ∈ schema, Brings source entry) :
    Unshadowed schema := fun _ found => absurd rfl (h _ (Table.mem_of_get? found)).plain

theorem unshadowed_reference (value : Json) : Unshadowed [("$ref", value)] := by
  rintro _ ⟨⟩
  rfl

/-- A schema that extends one without a reference has none. -/
theorem Extends.plain {source : Json → Prop} {extended : Json.Fields}
    (h : Extends source schema extended) (plain : Table.get? schema "$ref" = none) :
    Table.get? extended "$ref" = none := by
  rw [Table.get?_eq_none_iff] at plain ⊢
  intro isKey
  obtain ⟨⟨_, value⟩, mem, rfl⟩ := List.mem_map.1 isKey
  rcases h _ mem with before | brings
  · exact plain (List.mem_map_of_mem before)
  · exact brings.plain rfl

end Draft07

open Draft07

variable {π : Type}

/-! ### Layers -/

namespace Assembly

variable {f : Assembly}

/-- Where the constraints of an assembly go: beside a structure that is no reference; nowhere, if
there are none and no annotations that would stand beside the reference; or else beside the
reference moved under a keyword of its own. -/
theorem constrained_cases (h : Unshadowed f.body) :
    (Table.get? f.body "$ref" = none ∧
        f.constrained = writeConstraints f.constraints f.bounds f.body) ∨
      ∃ value, f.body = [("$ref", value)] ∧
        (writeConstraints f.constraints f.bounds = id ∧ f.constrained = f.body ∧
            (f.nullable = true ∨ f.annotations.isEmpty = true) ∨
          f.constrained = writeConstraints f.constraints f.bounds
            [("allOf", .array [.object f.body])]) := by
  cases found : Table.get? f.body "$ref" with
  | none => exact .inl ⟨rfl, constrained_of_plain found⟩
  | some value =>
    have isReference : Table.has f.body "$ref" = true := by
      rw [Table.has, found]
      rfl
    refine .inr ⟨value, h value found, ?_⟩
    unfold constrained
    dsimp only
    split
    · exact .inr rfl
    next stays =>
      rw [isReference, Bool.true_and, Bool.or_eq_true, not_or, decide_eq_true_eq, not_lt,
        Bool.and_eq_true, not_and_or, Bool.not_eq_true', Bool.not_eq_false, Bool.not_eq_true',
        Bool.not_eq_false] at stays
      obtain ⟨short, bare⟩ := stays
      rw [h value found] at short
      have nothing := writeConstraints_eq_id short
      exact .inl ⟨nothing, by rw [nothing, id], bare⟩

/-- With its constraints an assembly is no reference any more, unless nothing was added that would
stand beside it. -/
theorem plain_constrained_or (h : Unshadowed f.body) :
    Table.get? f.constrained "$ref" = none ∨
      f.constrained = f.body ∧ (f.nullable = true ∨ f.annotations.isEmpty = true) := by
  have written {schema : Json.Fields} : Extends (fun _ => True) schema
      (writeConstraints f.constraints f.bounds schema) := extends_writeConstraints _ _ _
  rcases constrained_cases h with ⟨plain, same⟩ | ⟨value, -, ⟨-, same, bare⟩ | same⟩
  · exact .inl (same ▸ written.plain plain)
  · exact .inr ⟨same, bare⟩
  · exact .inl (same ▸ written.plain rfl)

theorem unshadowed_constrained (h : Unshadowed f.body) : Unshadowed f.constrained := by
  rcases plain_constrained_or h with plain | ⟨same, -⟩
  · exact unshadowed_of_plain plain
  · rwa [same]

/-- Layers put nothing beside a reference. -/
theorem unshadowed_schema (h : Unshadowed f.body) : Unshadowed f.schema := by
  have written {schema : Json.Fields} : Extends (fun _ => True) schema
      (f.annotations.write schema) := extends_write _ _
  unfold schema
  cases nullable : f.nullable with
  | true => exact unshadowed_of_plain (written.plain (get?_orNull_of_ne _ (by decide)))
  | false =>
    rw [if_neg Bool.false_ne_true]
    rcases plain_constrained_or h with plain | ⟨same, bare⟩
    · exact unshadowed_of_plain (written.plain plain)
    · rw [same, Annotations.write_of_isEmpty (bare.resolve_left (by simp [nullable]))]
      exact h

end Assembly

namespace Compile

/-! ### Documents -/

/-- The schema stands inside the root of a document, without what a document adds there, or inside
one of its definitions. -/
def InBody (document schema : Json) : Prop :=
  Inside (.object (rootEntries document)) schema ∨
    ∃ name definition, (name, definition) ∈ definitions document ∧
      Inside (.object definition) schema

/-- A structure has nothing beside a reference if its parts do not. -/
theorem unshadowed_of_consists {compiles : Node π → NodeSchema → Prop} {options : DocumentOptions}
    {node : Node π} {adapter : Adapter π} {shape : Shape} {assembly : Assembly}
    (parts : ∀ part c, compiles part c → Unshadowed c.schema)
    (h : Structure.Consists compiles options node adapter shape assembly) :
    Unshadowed assembly.body := by
  rcases h.brings with ⟨part, c, compiled, same⟩ | brings
  · rw [same]
    exact parts part c compiled
  · exact unshadowed_of_brings brings

/-- In no compiled schema, nor anywhere inside, does anything stand beside a reference. -/
theorem unshadowed_invariant (context : CompileContext π) (names : Table Identity String) :
    SchemaInvariant context names fun schema => Throughout Unshadowed (.object schema) where
  empty := throughout_of_parts (unshadowed_of_plain rfl) nofun
  reference _ _ _ := by
    refine throughout_of_parts (unshadowed_reference _) fun part isPart => ?_
    cases isPart
  structured _ _ _ _ h := by
    have consists := Structure.consists_of_yields h
    exact consists.throughout (unshadowed_of_consists (fun _ _ all => Throughout.here all) consists)
      (unshadowed_of_plain rfl)
  layered f h := Assembly.throughout_schema h (Assembly.unshadowed_constrained h.here)
    (Assembly.unshadowed_schema h.here) (unshadowed_of_plain rfl)

end Compile

namespace Registry

open Compile Call

/-- Every reference inside the body of a document or inside one of its definitions, at whatever
position, stands alone. -/
theorem reference_alone (registry : Registry π) (options : DocumentOptions) (node : Node π)
    (supply : Nat) {schema value : Json}
    (inside : InBody (registry.compile options node supply).1.value schema)
    (reference : schema.get? "$ref" = some value) : schema = .object [("$ref", value)] := by
  have kept := unshadowed_invariant ⟨registry, options⟩ (registry.books options node supply).names
  have alone {fields : Json.Fields} (all : Throughout Unshadowed (.object fields))
      (inFields : Inside (.object fields) schema) : schema = .object [("$ref", value)] := by
    obtain ⟨fields, rfl, unshadowed⟩ := all schema inFields
    rw [unshadowed value reference]
  rcases inside with inRoot | ⟨name, definition, mem, inDefinition⟩
  · obtain ⟨fields, isObject, same⟩ := root_document options
      (registry.books options node supply).definitions
      (registry.schema_root options node supply (tidy_invariant _ _))
    rw [value_compile, isObject, rootEntries, Json.asObject?, Option.getD_some, same] at inRoot
    exact alone (registry.schema_root options node supply kept) inRoot
  · rw [definitions_compile] at mem
    have found := Table.get?_of_mem (registry.trusted_books options node supply).distinct mem
    exact alone (registry.schema_definition options node supply kept found) inDefinition

/-- The document of a promise of a list whose elements are the promise again, with a bound. -/
def promisedListDocument : Json :=
  ((slotContext promisedList).registry.compile {} promisedList 10).1.value

/-- The elements of the list have a bound, and the reference to the promise stands alone in front of
it. -/
theorem promisedList_reference_alone : ∃ element reference value,
    element ∈ parts (.object (rootEntries promisedListDocument)) ∧
      (element.get? "minimum").isSome = true ∧ reference ∈ parts element ∧
      reference.get? "$ref" = some value ∧ reference = .object [("$ref", value)] := by
  have found : ((parts (.object (rootEntries promisedListDocument))).any fun element =>
      (element.get? "minimum").isSome && (parts element).any fun reference =>
        (reference.get? "$ref").isSome) = true := by decide +kernel
  obtain ⟨element, isElement, found⟩ := List.any_eq_true.1 found
  obtain ⟨bounded, found⟩ := Bool.and_eq_true_iff.1 found
  obtain ⟨reference, isPart, refers⟩ := List.any_eq_true.1 found
  obtain ⟨value, refers⟩ := Option.isSome_iff_exists.1 refers
  have inside : InBody promisedListDocument reference :=
    .inl (.step isElement (.step isPart (.refl _)))
  exact ⟨element, reference, value, isElement, bounded, isPart, refers,
    reference_alone _ _ promisedList 10 inside refers⟩

end Registry

end SchemaBridge
