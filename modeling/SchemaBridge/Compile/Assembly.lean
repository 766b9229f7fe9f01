import SchemaBridge.Adapter.Basic

/-!
# Assemblies

An assembly is the schema of one node while it is put together: the keywords of its structure and
what the layers around it contribute. Layers are added from the inside out, so that an outer layer
replaces what an inner one said. The schema of an assembly has its constraints beside the structure,
the null branch of a nullable node around them, and the annotations outermost. A `$ref` never gets a
keyword beside it: it moves into an `allOf` of its own.

## Main definitions

* `Assembly` : the parts.
* `Assembly.add`, `Assembly.addLayer` : what a layer contributes.
* `Assembly.schema` : the schema.

## Main results

* `Assembly.schema_of_plain` : an assembly to which nothing was added has its structure as schema.
-/

namespace SchemaBridge

/-- What layers say about a node without restricting it. -/
structure Annotations where
  title : Option String := none
  description : Option String := none
  default : Option Json := none
  examples : List Json := []
  deprecated : Bool := false

namespace Annotations

/-- Nothing is said. -/
def isEmpty (a : Annotations) : Bool :=
  a.title.isNone && a.description.isNone && a.default.isNone && a.examples.isEmpty && !a.deprecated

/-- Writes the annotations into a schema. -/
def write (a : Annotations) (schema : Json.Fields) : Json.Fields :=
  let schema := Table.putSome schema "title" (a.title.map .string)
  let schema := Table.putSome schema "description" (a.description.map .string)
  let schema := Table.putSome schema "default" a.default
  let examples := if a.examples.isEmpty then none else some (.array a.examples)
  let schema := Table.putSome schema "examples" examples
  Table.putSome schema "deprecated" (if a.deprecated then some (.bool true) else none)

end Annotations

/-- The schema of one node while it is put together. -/
structure Assembly where
  /-- The keywords of the structure. -/
  body : Json.Fields
  /-- The family of the bounds of the structure. -/
  bounds : BoundsFamily
  /-- The constraints of all layers so far. -/
  constraints : Constraints := .empty
  /-- The annotations of all layers so far. -/
  annotations : Annotations := {}
  /-- Some layer so far admits `null`. -/
  nullable : Bool := false

namespace Assembly

/-- The schema that accepts anything. -/
def any : Assembly := ⟨[], .value, .empty, {}, false⟩

/-- The number of a bound: an integer if it is one that a double holds exactly, else a double. -/
def boundNumber (x : Binary64) : Json :=
  match x.toInt? with
  | some i => .ofInt i
  | none => .ofBinary64 x

/-- Writes constraints into a schema under the keywords of a family. -/
def writeConstraints (c : Constraints) (family : BoundsFamily) (schema : Json.Fields) :
    Json.Fields :=
  let schema := Table.putSome schema family.keywords.1 (c.min.map boundNumber)
  let schema := Table.putSome schema family.keywords.2 (c.max.map boundNumber)
  let schema := Table.putSome schema family.countKeywords.1 (c.minLength.map .ofNat)
  let schema := Table.putSome schema family.countKeywords.2 (c.maxLength.map .ofNat)
  let schema := Table.putSome schema "pattern" (c.pattern.map .string)
  Table.putSome schema "format" (c.format.map .string)

/-- The schema of `null`. -/
def nullSchema : Json := .object [("type", .string "null")]

/-- The schema that also accepts `null`: an `anyOf` that stands alone gets one more branch, anything
else becomes the first of two branches. -/
def orNull (schema : Json.Fields) : Json.Fields :=
  match schema with
  | [("anyOf", .array branches)] =>
    [("anyOf", .array (if Json.among branches nullSchema then branches
      else branches ++ [nullSchema]))]
  | _ => [("anyOf", .array [.object schema, nullSchema])]

/-- The structure with its constraints. A reference moves into an `allOf` if anything would stand
beside it. -/
def constrained (f : Assembly) : Json.Fields :=
  let schema := writeConstraints f.constraints f.bounds f.body
  let annotated := !f.nullable && !f.annotations.isEmpty
  if Table.has f.body "$ref" && (f.body.length < schema.length || annotated) then
    writeConstraints f.constraints f.bounds [("allOf", .array [.object f.body])]
  else schema

/-- The schema of an assembly. -/
def schema (f : Assembly) : Json.Fields :=
  f.annotations.write (if f.nullable then orNull f.constrained else f.constrained)

/-- What a node adds to the assembly of what it wraps. -/
def add {π : Type} (f : Assembly) (adapter : Adapter π) (node : Node π) : Assembly :=
  let examples := adapter.examples node
  { f with
    constraints := (adapter.constraints node).elim f.constraints f.constraints.coveredBy
    annotations :=
      { title := (adapter.title node).or f.annotations.title
        description := (adapter.description node).or f.annotations.description
        default := (adapter.default node).or f.annotations.default
        examples := if examples.isEmpty then f.annotations.examples else examples
        deprecated := adapter.isDeprecated node || f.annotations.deprecated } }

/-- What a layer adds to the assembly of what it wraps. -/
def addLayer {π : Type} (f : Assembly) (adapter : Adapter π) (node : Node π)
    (modifier : Option Modifier) : Assembly :=
  let f := f.add adapter node
  if modifier = some .nullable then { f with nullable := true } else f

/-! ### Nothing added -/

/-- The schema of an assembly to which nothing was added is its structure. -/
theorem schema_of_plain (body : Json.Fields) (bounds : BoundsFamily) :
    schema ⟨body, bounds, .empty, {}, false⟩ = body := by
  simp [schema, constrained, writeConstraints, Constraints.empty, Annotations.write,
    Annotations.isEmpty, Table.putSome]

end Assembly

end SchemaBridge
