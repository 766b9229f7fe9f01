import SchemaBridge.Draft07.Acceptance

/-!
# Schema positions

The places of a schema at which schemas stand: under the keywords that have schemas in them, at any
depth. A text that looks like a schema inside a `const`, an `enum`, a default or an example is data,
and stands at no such place.

## Main definitions

* `Draft07.parts` : the schemas directly inside a schema.
* `Draft07.Inside` : the schemas inside a schema, itself included.
* `Draft07.InDocument` : the schemas inside a document and its definitions.
-/

namespace SchemaBridge.Draft07

/-- The schemas directly under a keyword. -/
def keywordParts (keyword : String) (value : Json) : List Json :=
  match keyword, value with
  | "anyOf", .array branches | "allOf", .array branches => branches
  | "items", .array positions => positions
  | "properties", .object properties => properties.map Prod.snd
  | "not", schema | "additionalProperties", schema | "propertyNames", schema | "items", schema
  | "additionalItems", schema => [schema]
  | _, _ => []

/-- The schemas directly inside a schema. -/
def parts : Json → List Json
  | .object schema => schema.flatMap fun entry => keywordParts entry.1 entry.2
  | _ => []

/-- The second schema stands inside the first, at any depth. -/
inductive Inside : Json → Json → Prop where
  | refl (schema : Json) : Inside schema schema
  | step {schema part inner : Json} (isPart : part ∈ parts schema) (inside : Inside part inner) :
      Inside schema inner

/-- The schema stands inside a document or one of its definitions. -/
def InDocument (document schema : Json) : Prop :=
  Inside document schema ∨
    ∃ name definition, (name, definition) ∈ definitions document ∧
      Inside (.object definition) schema

/-- The name that a schema refers to, if it is a reference to a definition. -/
def RefersTo (schema : Json) (name : String) : Prop :=
  schema.get? "$ref" = some (.string (pointer name))

end SchemaBridge.Draft07
