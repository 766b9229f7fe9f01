import SchemaBridge.Compile.Ledger
import SchemaBridge.Compile.Plan

/-!
# Structures

The keywords of a node without modifiers, by its shape. The parts of the node are compiled by a
function that is passed in, in the order in which the adapter lists them.

## Main definitions

* `Structure.required` : the keys of an object that must be present.
* `Structure.ofShape` : the plan of a node without modifiers.
* `Structure.carryOut` : carries a plan out on the books of a compilation.
* `Structure.compile` : the assembly of a node without modifiers.
-/

namespace SchemaBridge

namespace Structure

variable {π : Type}

/-- The keyword `type`. -/
def typed (word : String) : Json.Fields := [("type", .string word)]

/-- The schema that accepts nothing. -/
def nothing : Json.Fields := [("not", .object [])]

/-- A keyword that is written only if there is a value for it. -/
def optionally (key : String) (value : Option Json) : Json.Fields :=
  value.toList.map fun v => (key, v)

/-- The keywords of a date. -/
def date (options : DocumentOptions) : Json.Fields :=
  [("type", .string "string"), ("format", .string options.dateFormat)]

/-- The keywords of a tuple. With no fixed positions a positional list would be empty, which is not
allowed: the rest, if any, is then the schema of all items. -/
def tuple (items : List Json) (rest : Option Json) : Json.Fields :=
  typed "array" ++
    match items, rest with
    | [], some rest => [("items", rest)]
    | [], none => [("maxItems", .ofNat 0)]
    | _, some rest =>
      [("items", .array items), ("additionalItems", rest), ("minItems", .ofNat items.length)]
    | _, none =>
      [("items", .array items), ("minItems", .ofNat items.length),
        ("maxItems", .ofNat items.length)]

/-- The keys of an object that must be present: those whose last entry is not optional, each once,
in the order of their last entries. -/
def required (entries : List (String × NodeSchema)) : List String :=
  entries.foldl
    (fun keys entry =>
      keys.filter (· ≠ entry.1) ++ if entry.2.isOptional then [] else [entry.1])
    []

/-- The keywords of an object. A key that is repeated keeps its place and takes the last schema. -/
def object (entries : List (String × NodeSchema)) : Json.Fields :=
  let properties := Table.ofList (entries.map fun entry => (entry.1, entry.2.toJson))
  let keys := required entries
  typed "object" ++ [("properties", .object properties)] ++
    if keys.isEmpty then [] else [("required", .ofStrings keys)]

/-- The keywords that restrict a string, and so a key. -/
def keyKeywords : List String := ["enum", "const", "pattern", "format", "minLength", "maxLength"]

/-- The schema restricts keys. -/
def restrictsKeys (schema : Json.Fields) : Bool := keyKeywords.any fun k => Table.has schema k

/-- The keywords of a record or a map: a schema of keys that restricts them, and a schema of
values. -/
def keyed (key value : Option NodeSchema) : Json.Fields :=
  typed "object" ++
    optionally "propertyNames"
      ((key.filter fun k => restrictsKeys k.schema).map NodeSchema.toJson) ++
    optionally "additionalProperties" (value.map NodeSchema.toJson)

/-- The keywords of a union. -/
def union (options : List NodeSchema) : Json.Fields :=
  if options.isEmpty then nothing else [("anyOf", .array (options.map NodeSchema.toJson))]

/-- The keywords of an intersection. -/
def intersection (parts : List NodeSchema) : Json.Fields :=
  if parts.isEmpty then [] else [("allOf", .array (parts.map NodeSchema.toJson))]

/-- The plan of a node without modifiers. A promise and a union of one option are the assembly of
what is inside. -/
def ofShape (options : DocumentOptions) (node : Node π) (adapter : Adapter π) (shape : Shape) :
    Plan π Assembly := do
  let plain (body : Json.Fields) : Assembly := { body, bounds := shape.bounds }
  let embed (c : NodeSchema) : Assembly := { body := c.schema, bounds := c.bounds }
  match shape with
  | .literal => return plain (optionally "const" (adapter.literal node))
  | .enumeration =>
    let values := adapter.values node
    return plain (if values.isEmpty then nothing else [("enum", .array values)])
  | .date => return plain (date options)
  | .instanceOf =>
    return plain (if adapter.className node = some "Date" then date options else typed "object")
  | .bigint => return plain (typed "integer")
  | .symbol | .function | .any | .unknown => return plain []
  | .promise =>
    match ← Plan.question (adapter.awaited node) with
    | some inner => return embed (← Plan.part inner)
    | none => return plain []
  | .union =>
    let options ← Plan.parts (← Plan.question (adapter.options node))
    match options with
    | [only] => return embed only
    | _ => return plain (union options)
  | .intersection =>
    let parts ← Plan.parts (← Plan.question (adapter.parts node))
    return plain (intersection parts)
  | .tuple =>
    let items ← Plan.parts (← Plan.question (adapter.positions node))
    let rest ← Plan.part? (← Plan.question (adapter.rest node))
    return plain (tuple (items.map NodeSchema.toJson) (rest.map NodeSchema.toJson))
  | .object =>
    let entries ← Plan.entries (← Plan.question (adapter.entries node))
    return plain (object entries)
  | .array =>
    let element ← Plan.part? (← Plan.question (adapter.element node))
    return plain (typed "array" ++ optionally "items" (element.map NodeSchema.toJson))
  | .record =>
    let key ← Plan.question (adapter.recordKey node)
    let value ← Plan.question (adapter.recordValue node)
    let key ← Plan.part? key
    return plain (keyed key (← Plan.part? value))
  | .map =>
    let key ← Plan.question (adapter.mapKey node)
    let value ← Plan.question (adapter.mapValue node)
    let key ← Plan.part? key
    return plain (keyed key (← Plan.part? value))
  | .set =>
    let element ← Plan.part? (← Plan.question (adapter.member node))
    return plain (typed "array" ++ [("uniqueItems", .bool true)] ++
      optionally "items" (element.map NodeSchema.toJson))
  | .string => return plain (typed "string")
  | .number => return plain (typed "number")
  | .boolean => return plain (typed "boolean")
  | .null => return plain (typed "null")
  | .undefined | .void | .never => return plain nothing

/-- Carries a plan out on the books of a compilation. -/
def carryOut {α : Type} (child : Node π → CompileM NodeSchema) (plan : Plan π α) :
    ExceptT CompileFailure CompileM α :=
  plan.run Ledger.ask fun part => ExceptT.lift (child part)

/-- The assembly of a node without modifiers; a node without a shape accepts anything. -/
def compile (context : CompileContext π) (child : Node π → CompileM NodeSchema) (node : Node π)
    (adapter : Adapter π) : ExceptT CompileFailure CompileM Assembly := do
  match adapter.shape? node with
  | some shape => carryOut child (ofShape context.options node adapter shape)
  | none =>
    ExceptT.lift (Ledger.report (.shapeless adapter.vendor node.typeName))
    return .any

end Structure

end SchemaBridge
