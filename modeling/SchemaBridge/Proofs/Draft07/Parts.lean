import SchemaBridge.Compile.Document
import SchemaBridge.Draft07.Position
import SchemaBridge.Proofs.Draft07.Writing
import SchemaBridge.Proofs.Plan.Shapes

/-!
# Where the schemas inside a schema come from

The schemas inside a structure are those of its parts, and layers put nothing else around them than
the structure itself, with its constraints and a null branch. References are neither made nor moved
on the way: a `$ref` stands where it stood in a part, or a node that stands for a part is a
reference as a whole. So a property of single schemas that this respects holds at every position, if
it holds of what is compiled.

## Main definitions

* `Draft07.Throughout` : a property holds of every schema inside a schema.
* `Draft07.Brings` : a keyword is no reference, and the schemas under it are of a kind.
* `Draft07.Extends` : a schema has further keywords that bring schemas of a kind.

## Main results

* `Assembly.extends_schema` : what layers add to a structure.
* `Structure.Consists.brings` : what a structure is made of.
* `Assembly.throughout_schema`, `Structure.Consists.throughout` : what holds of single schemas holds
  throughout.
-/

namespace SchemaBridge

namespace Draft07

/-- Every schema inside a schema, itself included, is an object with a property. -/
def Throughout (P : Json.Fields → Prop) (schema : Json) : Prop :=
  ∀ inner, Inside schema inner → ∃ fields, inner = .object fields ∧ P fields

/-- A keyword with its value is no reference, and the schemas under it are of a kind. -/
structure Brings (source : Json → Prop) (entry : String × Json) : Prop where
  plain : entry.1 ≠ "$ref"
  parts : ∀ part ∈ keywordParts entry.1 entry.2, source part

/-- Every keyword of a schema is one of another schema, or brings schemas of a kind. -/
def Extends (source : Json → Prop) (schema extended : Json.Fields) : Prop :=
  ∀ entry ∈ extended, entry ∈ schema ∨ Brings source entry

section

variable {P : Json.Fields → Prop} {source wider : Json → Prop} {keyword : String}
  {schema extended further : Json.Fields} {value : Json} {entry : String × Json}

theorem throughout_of_parts (here : P schema)
    (below : ∀ part ∈ parts (.object schema), Throughout P part) :
    Throughout P (.object schema) := by
  intro inner inside
  cases inside with
  | refl => exact ⟨schema, rfl, here⟩
  | step isPart rest => exact below _ isPart inner rest

theorem Throughout.here (h : Throughout P (.object schema)) : P schema := by
  obtain ⟨_, ⟨⟩, here⟩ := h _ (.refl _)
  exact here

theorem Throughout.below (h : Throughout P (.object schema)) :
    ∀ part ∈ parts (.object schema), Throughout P part := fun _ isPart inner inside =>
  h inner (.step isPart inside)

theorem mem_parts_iff {part : Json} : part ∈ parts (.object schema) ↔
    ∃ entry ∈ schema, part ∈ keywordParts entry.1 entry.2 := List.mem_flatMap

/-- A keyword that has no schemas in it contributes none. -/
theorem keywordParts_eq_nil (inert : keyword ∉ applicators) (value : Json) :
    keywordParts keyword value = [] := by
  simp only [applicators, List.mem_cons, List.not_mem_nil, or_false, not_or] at inert
  unfold keywordParts
  split <;> simp_all

theorem Brings.mono (h : Brings source entry) (wide : ∀ part, source part → wider part) :
    Brings wider entry :=
  ⟨h.plain, fun part isPart => wide part (h.parts part isPart)⟩

/-- A keyword that has no schemas in it. -/
theorem Brings.of_inert (inert : keyword ∉ "$ref" :: applicators) :
    Brings source (keyword, value) := by
  obtain ⟨plain, inert⟩ := not_or.1 (mt List.mem_cons.2 inert)
  refine ⟨plain, fun part isPart => ?_⟩
  rw [keywordParts_eq_nil inert] at isPart
  cases isPart

/-! ### Keywords that are written -/

theorem Extends.trans (first : Extends source schema extended)
    (second : Extends source extended further) : Extends source schema further := fun entry mem =>
  (second entry mem).elim (first entry) .inr

theorem Extends.mono (h : Extends source schema extended)
    (wide : ∀ part, source part → wider part) : Extends wider schema extended := fun entry mem =>
  (h entry mem).imp_right (·.mono wide)

theorem Extends.of_brings (h : ∀ entry ∈ extended, Brings source entry) :
    Extends source schema extended := fun entry mem => .inr (h entry mem)

/-- Keywords without schemas in them are written, as far as there are values for them. -/
theorem extends_writeAll {entries : List (String × Option Json)} (schema : Json.Fields)
    (inert : ∀ keyword ∈ entries.map Prod.fst, keyword ∉ "$ref" :: applicators) :
    Extends source schema (Table.writeAll schema entries) := fun _ mem =>
  (Table.mem_of_mem_writeAll mem).imp_right fun written => .of_inert (inert _ written)

/-- The schemas inside a schema that extends another one. -/
theorem Extends.mem_parts (h : Extends source schema extended) {part : Json}
    (isPart : part ∈ parts (.object extended)) : part ∈ parts (.object schema) ∨ source part := by
  obtain ⟨entry, mem, isPart⟩ := mem_parts_iff.1 isPart
  exact (h entry mem).imp (fun before => mem_parts_iff.2 ⟨entry, before, isPart⟩)
    (·.parts part isPart)

end

end Draft07

open Draft07

variable {π : Type}

/-! ### Layers -/

namespace Assembly

variable {source : Json → Prop}

theorem extends_write (a : Annotations) (schema : Json.Fields) :
    Extends source schema (a.write schema) := by
  have inert : ∀ keyword ∈ Annotations.keywords, keyword ∉ "$ref" :: applicators := by decide
  rw [Annotations.write_eq]
  exact extends_writeAll schema inert

theorem extends_writeConstraints (c : Constraints) (family : BoundsFamily) (schema : Json.Fields) :
    Extends source schema (writeConstraints c family schema) := by
  have inert : ∀ keyword ∈ Constraints.keywords, keyword ∉ "$ref" :: applicators := by decide
  rw [writeConstraints_eq]
  exact extends_writeAll schema fun keyword mem => inert keyword (c.keys_entries_subset family mem)

/-- A keyword whose value is a list of schemas. -/
theorem brings_branches {keyword : String} {branches : List Json}
    (h : ∀ part ∈ branches, source part)
    (several : keyword ∈ ["items", "anyOf", "allOf"]) :
    Brings source (keyword, .array branches) := by
  simp only [List.mem_cons, List.not_mem_nil, or_false] at several
  rcases several with rfl | rfl | rfl <;> exact ⟨by simp, h⟩

/-- The null branch stands beside the branches that were there, or beside the schema. -/
theorem brings_orNull (schema : Json.Fields) : ∀ entry ∈ orNull schema,
    Brings (fun part => part ∈ parts (.object schema) ∨ part = .object schema ∨ part = nullSchema)
      entry := by
  unfold orNull
  split
  next branches =>
    have before : ∀ part ∈ branches, part ∈ parts (.object [("anyOf", .array branches)]) :=
      fun part mem => mem_parts_iff.2 ⟨_, List.mem_singleton_self _, mem⟩
    refine List.forall_mem_singleton.2 (brings_branches (fun part mem => ?_) (by decide))
    split at mem
    · exact .inl (before part mem)
    · rcases List.mem_append.1 mem with mem | mem
      · exact .inl (before part mem)
      · exact .inr (.inr (List.mem_singleton.1 mem))
  next =>
    refine List.forall_mem_singleton.2 (brings_branches (fun part mem => .inr ?_) (by decide))
    rwa [List.mem_cons, List.mem_singleton] at mem

/-- Constraints stand beside the structure, or the structure moves under a keyword. -/
theorem extends_constrained (f : Assembly) :
    Extends (· = .object f.body) f.body f.constrained := by
  unfold constrained
  dsimp only
  split
  · refine .trans (.of_brings (List.forall_mem_singleton.2 ?_)) (extends_writeConstraints _ _ _)
    exact brings_branches (fun part mem => List.mem_singleton.1 mem) (by decide)
  · exact extends_writeConstraints _ _ _

/-- Layers put nothing under a keyword but the structure, with its constraints, and the schema of
`null`. -/
theorem extends_schema (f : Assembly) :
    Extends (fun part => part ∈ parts (.object f.body) ∨ part = .object f.body ∨
      part = .object f.constrained ∨ part = nullSchema) f.body f.schema := by
  unfold schema
  refine .trans ?_ (extends_write _ _)
  have constrained := f.extends_constrained
  split
  · refine .of_brings fun entry mem => (brings_orNull _ entry mem).mono ?_
    rintro part (inside | rest)
    · exact (constrained.mem_parts inside).imp_right .inl
    · exact .inr (.inr rest)
  · exact constrained.mono fun part same => .inr (.inl same)

/-- What holds throughout a structure holds throughout its schema, if it holds of the schemas that
layers make of the structure. -/
theorem throughout_schema {P : Json.Fields → Prop} {f : Assembly}
    (h : Throughout P (.object f.body)) (constrained : P f.constrained) (layered : P f.schema)
    (null : P [("type", .string "null")]) : Throughout P (.object f.schema) := by
  refine throughout_of_parts layered fun part isPart => ?_
  rcases f.extends_schema.mem_parts isPart with inside | inside | rfl | rfl | rfl
  · exact h.below part inside
  · exact h.below part inside
  · exact h
  · refine throughout_of_parts constrained fun inner isInner => ?_
    rcases f.extends_constrained.mem_parts isInner with inside | rfl
    · exact h.below inner inside
    · exact h
  · refine throughout_of_parts null fun inner isInner => ?_
    cases isInner

end Assembly

/-! ### Structures -/

namespace Structure

variable {source : Json → Prop}

theorem brings_typed (word : String) : ∀ entry ∈ typed word, Brings source entry :=
  List.forall_mem_singleton.2 (.of_inert (by decide))

theorem brings_nothing (empty : source (.object [])) : ∀ entry ∈ nothing, Brings source entry :=
  List.forall_mem_singleton.2 ⟨by decide, List.forall_mem_singleton.2 empty⟩

theorem brings_date (options : DocumentOptions) : ∀ entry ∈ date options, Brings source entry :=
  List.forall_mem_cons.2
    ⟨.of_inert (by decide), List.forall_mem_singleton.2 (.of_inert (by decide))⟩

/-- A keyword whose value is one schema. -/
theorem brings_one {keyword : String} {schema : Json.Fields}
    (single : keyword ∈ ["items", "additionalItems", "additionalProperties", "propertyNames"])
    (h : source (.object schema)) : Brings source (keyword, .object schema) := by
  have parts : ∀ part ∈ [Json.object schema], source part := List.forall_mem_singleton.2 h
  simp only [List.mem_cons, List.not_mem_nil, or_false] at single
  rcases single with rfl | rfl | rfl | rfl <;> exact ⟨by simp, parts⟩

theorem brings_optionally {keyword : String} {c : Option NodeSchema}
    (single : keyword ∈ ["items", "additionalItems", "additionalProperties", "propertyNames"])
    (h : ∀ c' ∈ c, source c'.toJson) :
    ∀ entry ∈ optionally keyword (c.map NodeSchema.toJson), Brings source entry := by
  cases c with
  | none => exact nofun
  | some c => exact List.forall_mem_singleton.2 (brings_one single (h c rfl))

/-- A keyword whose value is a list of compiled schemas. -/
theorem brings_list {keyword : String} {cs : List NodeSchema}
    (several : keyword ∈ ["items", "anyOf", "allOf"]) (h : ∀ c ∈ cs, source c.toJson) :
    Brings source (keyword, .array (cs.map NodeSchema.toJson)) :=
  Assembly.brings_branches (List.forall_mem_map.2 h) several

theorem brings_keyed {key value : Option NodeSchema} (hkey : ∀ c ∈ key, source c.toJson)
    (hvalue : ∀ c ∈ value, source c.toJson) : ∀ entry ∈ keyed key value, Brings source entry := by
  refine List.forall_mem_append.2 ⟨List.forall_mem_append.2 ⟨brings_typed _, ?_⟩,
    brings_optionally (by decide) hvalue⟩
  exact brings_optionally (by decide) fun c mem => hkey c (Option.mem_filter_iff.1 mem).1

theorem brings_tuple {items : List NodeSchema} {rest : Option NodeSchema}
    (hitems : ∀ c ∈ items, source c.toJson) (hrest : ∀ c ∈ rest, source c.toJson) :
    ∀ entry ∈ tuple (items.map NodeSchema.toJson) (rest.map NodeSchema.toJson),
      Brings source entry := by
  have list := brings_list (by decide : "items" ∈ ["items", "anyOf", "allOf"]) hitems
  have atLeast (n : Nat) : Brings source ("minItems", .ofNat n) := .of_inert (by decide)
  have atMost (n : Nat) : Brings source ("maxItems", .ofNat n) := .of_inert (by decide)
  refine List.forall_mem_append.2 ⟨brings_typed _, ?_⟩
  cases items with
  | nil =>
    cases rest with
    | none => exact List.forall_mem_singleton.2 (atMost _)
    | some c => exact List.forall_mem_singleton.2 (brings_one (by decide) (hrest c rfl))
  | cons first others =>
    cases rest with
    | none =>
      exact List.forall_mem_cons.2 ⟨list,
        List.forall_mem_cons.2 ⟨atLeast _, List.forall_mem_singleton.2 (atMost _)⟩⟩
    | some c =>
      exact List.forall_mem_cons.2 ⟨list, List.forall_mem_cons.2
        ⟨brings_one (by decide) (hrest c rfl), List.forall_mem_singleton.2 (atLeast _)⟩⟩

theorem brings_object {entries : List (String × NodeSchema)}
    (h : ∀ entry ∈ entries, source entry.2.toJson) :
    ∀ entry ∈ object entries, Brings source entry := by
  refine List.forall_mem_append.2 ⟨List.forall_mem_append.2 ⟨brings_typed _, ?_⟩, ?_⟩
  · refine List.forall_mem_singleton.2 ⟨by simp, fun part mem => ?_⟩
    obtain ⟨property, isProperty, rfl⟩ := List.mem_map.1 mem
    obtain ⟨entry, isEntry, rfl⟩ := List.mem_map.1 (Table.mem_of_mem_ofList isProperty)
    exact h entry isEntry
  · split
    · exact nofun
    · exact List.forall_mem_singleton.2 (.of_inert (by decide))

/-- A structure is what a part compiles to, or else its keywords are no references, and the schemas
under them are empty or what parts compile to. -/
theorem Consists.brings {compiles : Node π → NodeSchema → Prop} {options : DocumentOptions}
    {node : Node π} {adapter : Adapter π} {shape : Shape} {assembly : Assembly}
    (h : Consists compiles options node adapter shape assembly) :
    (∃ part c, compiles part c ∧ assembly.body = c.schema) ∨
      ∀ entry ∈ assembly.body, Brings (fun schema => schema = .object [] ∨
        ∃ part c, compiles part c ∧ schema = c.toJson) entry := by
  let source (schema : Json) : Prop :=
    schema = .object [] ∨ ∃ part c, compiles part c ∧ schema = c.toJson
  have isSource (part : Node π) (c : NodeSchema) (compiled : compiles part c) : source c.toJson :=
    .inr ⟨part, c, compiled, rfl⟩
  have all {nodes : List (Node π)} {cs : List NodeSchema} (h : List.Forall₂ compiles nodes cs) :
      ∀ c ∈ cs, source c.toJson :=
    Plan.forall_of_forall₂ (P := fun c : NodeSchema => source c.toJson) isSource h
  have one {node : Option (Node π)} {c : Option NodeSchema} (h : Option.Rel compiles node c) :
      ∀ c' ∈ c, source c'.toJson :=
    Plan.forall_of_rel (P := fun c : NodeSchema => source c.toJson) isSource h
  have nothing : ∀ entry ∈ Structure.nothing, Brings source entry := brings_nothing (.inl rfl)
  cases h with
  | promise _ compiled | only _ compiled => exact .inl ⟨_, _, compiled, rfl⟩
  | literal =>
    refine .inr ?_
    cases adapter.literal node with
    | none => exact nofun
    | some value => exact List.forall_mem_singleton.2 (.of_inert (by decide))
  | noValues | nothing => exact .inr nothing
  | enumeration => exact .inr (List.forall_mem_singleton.2 (.of_inert (by decide)))
  | date => exact .inr (brings_date options)
  | typed => exact .inr (brings_typed _)
  | anything => exact .inr nofun
  | union _ parts =>
    refine .inr ?_
    dsimp only [Structure.union]
    split
    · exact nothing
    · exact List.forall_mem_singleton.2 (brings_list (by decide) (all parts))
  | intersection _ parts =>
    refine .inr ?_
    dsimp only [Structure.intersection]
    split
    · exact nofun
    · exact List.forall_mem_singleton.2 (brings_list (by decide) (all parts))
  | tuple _ parts _ rest => exact .inr (brings_tuple (all parts) (one rest))
  | object _ parts =>
    exact .inr (brings_object (Plan.forall_of_forall₂
      (P := fun entry : String × NodeSchema => source entry.2.toJson)
      (fun _ b h => isSource _ b.2 h.2) parts))
  | array _ element =>
    exact .inr
      (List.forall_mem_append.2 ⟨brings_typed _, brings_optionally (by decide) (one element)⟩)
  | set _ element =>
    refine .inr (List.forall_mem_append.2 ⟨List.forall_mem_append.2 ⟨brings_typed _, ?_⟩,
      brings_optionally (by decide) (one element)⟩)
    exact List.forall_mem_singleton.2 (.of_inert (by decide))
  | record _ _ key value | map _ _ key value => exact .inr (brings_keyed (one key) (one value))

/-- What holds throughout the parts of a structure holds throughout the structure, if it holds of
the structure itself and of the empty schema. -/
theorem Consists.throughout {P : Json.Fields → Prop} {options : DocumentOptions} {node : Node π}
    {adapter : Adapter π} {shape : Shape} {assembly : Assembly}
    (h : Consists (fun _ c => Throughout P c.toJson) options node adapter shape assembly)
    (own : P assembly.body) (empty : P []) : Throughout P (.object assembly.body) := by
  rcases h.brings with ⟨part, c, all, same⟩ | brings
  · rw [same]
    exact all
  · refine throughout_of_parts own fun schema isPart => ?_
    obtain ⟨entry, mem, isPart⟩ := mem_parts_iff.1 isPart
    obtain rfl | ⟨part, c, all, rfl⟩ := (brings entry mem).parts schema isPart
    · exact throughout_of_parts empty nofun
    · exact all

end Structure

end SchemaBridge
