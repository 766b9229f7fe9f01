import SchemaBridge.Proofs.Draft07.Parts

/-!
# Where references point

A schema is closed over some names if every `$ref` at a schema position inside it is a pointer to
one of them. Keywords without schemas in them say nothing about references, so laying constraints
and annotations on a closed schema keeps it closed, and so does putting closed schemas together
under the keywords of a shape.

## Main definitions

* `Draft07.Closed` : every reference inside a schema points to a known name.
* `Draft07.ClosedEntry` : a keyword contributes no other references.

## Main results

* `Draft07.closed_of_entries` : a schema is closed if each of its keywords is.
* `Assembly.closed_schema` : layers keep a structure closed.
* `Structure.closed_of_yields` : a structure is closed if its parts are.
-/

namespace SchemaBridge

namespace Draft07

/-- Every reference at a schema position inside a schema is a pointer to a known name. -/
def Closed (known : String → Prop) (schema : Json) : Prop :=
  ∀ inner value, Inside schema inner → inner.get? "$ref" = some value →
    ∃ name, value = .string (pointer name) ∧ known name

/-- A keyword with its value contributes only references to known names. -/
structure ClosedEntry (known : String → Prop) (keyword : String) (value : Json) : Prop where
  points : keyword = "$ref" → ∃ name, value = .string (pointer name) ∧ known name
  parts : ∀ part ∈ keywordParts keyword value, Closed known part

/-- Every keyword contributes only references to known names. -/
def ClosedEntries (known : String → Prop) (schema : Json.Fields) : Prop :=
  ∀ entry ∈ schema, ClosedEntry known entry.1 entry.2

section

variable {known : String → Prop}

/-- A schema is closed if each of its keywords is. -/
theorem closed_of_entries {schema : Json.Fields} (h : ClosedEntries known schema) :
    Closed known (.object schema) := by
  intro inner value inside reference
  cases inside with
  | refl => exact (h _ (Table.mem_of_get? reference)).points rfl
  | step isPart rest =>
    obtain ⟨entry, mem, isPart⟩ := List.mem_flatMap.1 isPart
    exact (h entry mem).parts _ isPart inner value rest reference

theorem closedEntries_nil : ClosedEntries known [] := fun _ h => nomatch h

theorem closedEntries_cons {keyword : String} {value : Json} {rest : Json.Fields}
    (h : ClosedEntry known keyword value) (h' : ClosedEntries known rest) :
    ClosedEntries known ((keyword, value) :: rest) := by
  intro entry mem
  rcases List.mem_cons.1 mem with rfl | mem
  · exact h
  · exact h' entry mem

theorem closedEntries_singleton {keyword : String} {value : Json}
    (h : ClosedEntry known keyword value) : ClosedEntries known [(keyword, value)] :=
  closedEntries_cons h closedEntries_nil

theorem closedEntries_put {schema : Json.Fields} (h : ClosedEntries known schema) {keyword : String}
    {value : Json} (h' : ClosedEntry known keyword value) :
    ClosedEntries known (Table.put schema keyword value) := by
  intro entry mem
  rcases Table.mem_of_mem_put mem with before | rfl
  · exact h entry before
  · exact h'

/-- A keyword that has no schemas in it is closed. -/
theorem ClosedEntry.of_inert {keyword : String} {value : Json} (plain : keyword ≠ "$ref")
    (inert : keyword ∉ applicators) : ClosedEntry known keyword value where
  points same := absurd same plain
  parts part mem := by
    rw [keywordParts_eq_nil inert] at mem
    cases mem

/-- A keyword that brings closed schemas is closed. -/
theorem ClosedEntry.of_brings {entry : String × Json} (h : Brings (Closed known) entry) :
    ClosedEntry known entry.1 entry.2 := ⟨fun same => absurd same h.plain, h.parts⟩

/-- The schemas inside a schema are closed if its keywords are. -/
theorem closed_of_mem_parts {schema : Json.Fields} (h : ClosedEntries known schema) {part : Json}
    (isPart : part ∈ parts (.object schema)) : Closed known part := by
  obtain ⟨entry, mem, isPart⟩ := mem_parts_iff.1 isPart
  exact (h entry mem).parts part isPart

/-- A schema that extends a closed one by closed schemas is closed. -/
theorem closedEntries_of_extends {schema extended : Json.Fields} (h : ClosedEntries known schema)
    (extends' : Extends (Closed known) schema extended) : ClosedEntries known extended :=
  fun entry mem => (extends' entry mem).elim (h entry) .of_brings

end

end Draft07

open Draft07

variable {known : String → Prop} {π : Type}

namespace Assembly

theorem closed_nullSchema : Closed known nullSchema :=
  closed_of_entries (closedEntries_singleton (.of_inert (by decide) (by decide)))

/-- Layers keep a structure closed. -/
theorem closed_schema {f : Assembly} (h : ClosedEntries known f.body) :
    ClosedEntries known f.schema := by
  have constrained : ClosedEntries known f.constrained := by
    refine closedEntries_of_extends h (f.extends_constrained.mono ?_)
    rintro part rfl
    exact closed_of_entries h
  refine closedEntries_of_extends h (f.extends_schema.mono ?_)
  rintro part (inside | rfl | rfl | rfl)
  · exact closed_of_mem_parts h inside
  · exact closed_of_entries h
  · exact closed_of_entries constrained
  · exact closed_nullSchema

end Assembly

namespace Structure

/-- A keyword whose value is one schema. -/
theorem closedEntry_one {keyword : String} {schema : Json.Fields}
    (single : keyword ∈ ["items", "additionalItems", "additionalProperties", "propertyNames"])
    (h : ClosedEntries known schema) : ClosedEntry known keyword (.object schema) :=
  .of_brings (brings_one single (closed_of_entries h))

/-- A structure is closed if its parts are. -/
theorem closed_of_yields {options : DocumentOptions} {node : Node π} {adapter : Adapter π}
    {shape : Shape} {assembly : Assembly}
    (h : Plan.Yields (fun _ c => ClosedEntries known c.schema)
      (ofShape options node adapter shape) assembly) :
    ClosedEntries known assembly.body := by
  rcases (consists_of_yields h).brings with ⟨part, c, closed, same⟩ | own
  · rw [same]
    exact closed
  · refine fun entry mem => .of_brings ((own entry mem).mono ?_)
    rintro schema (rfl | ⟨part, c, closed, rfl⟩)
    · exact closed_of_entries closedEntries_nil
    · exact closed_of_entries closed

end Structure

end SchemaBridge
