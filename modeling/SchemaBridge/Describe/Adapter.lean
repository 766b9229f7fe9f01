import SchemaBridge.Describe.Validation
import SchemaBridge.Schema

/-!
# The adapter of description documents

The answers for nodes that hold a document. The modifiers of a document are answered one at a time:
an optional presence is outside of an allowed `null`, which is outside of a default. A structural
predicate holds only when no modifier is left. Every document inside a document becomes a new node,
so that documents are never recursive.

## Main definitions

* `Describe.holds` : the predicates of a document.
* `Describe.elementDocument?` : the document of the elements of an array.
* `Describe.adapter` : the adapter.
-/

namespace SchemaBridge.Describe

/-! ### Predicates -/

/-- The type word, once no flag changes what it means. -/
def baseType? (doc : Json) : Option String :=
  if isWrapped doc || forbidsPresence doc || isExclusive doc then none else type? doc

/-- A structural predicate holds of a document. -/
def hasShape (doc : Json) : Shape → Bool
  | .string => baseType? doc = some "string"
  | .number => baseType? doc = some "number"
  | .boolean => baseType? doc = some "boolean"
  | .any => baseType? doc = some "any"
  | .date => baseType? doc = some "date"
  | .symbol => baseType? doc = some "symbol"
  | .function => baseType? doc = some "function"
  | .union => baseType? doc = some "alternatives"
  | .object => baseType? doc = some "object" && !describesRecord doc
  | .record => baseType? doc = some "object" && describesRecord doc
  | .array => baseType? doc = some "array" && !describesTuple doc
  | .tuple => baseType? doc = some "array" && describesTuple doc
  | .never => !isWrapped doc && forbidsPresence doc
  | .literal => !isWrapped doc && isExclusive doc && (nonNullAllowed doc).length = 1
  | .enumeration => !isWrapped doc && isExclusive doc && (nonNullAllowed doc).length ≠ 1
  | _ => false

/-- A modifier predicate holds of a document. -/
def hasModifier (doc : Json) : Modifier → Bool
  | .optional => mayBeAbsent doc
  | .nullable => !mayBeAbsent doc && admitsNull doc
  | .defaulted => !mayBeAbsent doc && !admitsNull doc && hasDefault doc
  | _ => false

/-- A predicate holds of a document. -/
def holds : TypePredicate → Json → Bool
  | .shape s, doc => hasShape doc s
  | .modifier m, doc => hasModifier doc m

/-! ### Documents that are not written out -/

/-- The document that accepts what any of several documents accepts. -/
def alternativesDocument (docs : List Json) : Json :=
  .object [("type", .string "alternatives"),
    ("matches", .array (docs.map fun doc => .object [("schema", doc)]))]

/-- The document of the elements of an array. -/
def elementDocument? (doc : Json) : Except VendorError (Option Json) := do
  match (← documents doc "items").map Subtype.val with
  | [] => return none
  | [item] => return some item
  | items => return some (alternativesDocument items)

/-- The document of the keys that a pattern of a record admits. -/
def keyDocument (pattern : Json) : Json :=
  let rules (regex : String) : Json.Fields :=
    [("rules", .array [.object [("name", .string "pattern"),
      ("args", .object [("regex", .string regex)])]])]
  .object <| ("type", .string "string") ::
    ((pattern.get? "regex").bind Json.asString?).elim [] rules

/-! ### Answers -/

variable {γ : Type}

/-- The document of a node; any other node is malformed. -/
def documentOf (schema : Schema γ) : Except VendorError Json :=
  match schema.payload.description? with
  | some doc => .ok doc
  | none => .error (malformed "node is not a description document")

/-- The answer that a new node holds a document, if there is one. -/
def answer? (doc : Except VendorError (Option Json)) : Answer (Option (Schema γ)) := do
  match ← (doc : Except VendorError (Option Json)) with
  | some doc => return some (← Schema.ofDescription doc)
  | none => return none

/-- The answer that new nodes hold documents. -/
def answerAll (docs : Except VendorError (List Json)) : Answer (List (Schema γ)) := do
  (← (docs : Except VendorError (List Json))).mapM fun doc => Schema.ofDescription doc

/-- The documents of the keys of an object, each in a new node. -/
def entries (schema : Schema γ) : Answer (List (String × Schema γ)) := do
  let doc ← (documentOf schema : Except VendorError Json)
  let keyDocuments ← (keyDocuments doc : Except VendorError (List (String × Within doc)))
  keyDocuments.mapM fun entry => return (entry.1, ← Schema.ofDescription entry.2.1)

/-- The adapter of description documents. -/
def adapter : Adapter (Payload γ) where
  vendor := vendor
  claims schema := schema.payload.description?.any Json.isObject
  holds predicate schema := schema.payload.description?.any (holds predicate)
  inner schema := answer? do return peel? (← documentOf schema)
  entries := entries
  element schema := answer? do elementDocument? (← documentOf schema)
  options schema := answerAll do
    return (← alternatives (← documentOf schema)).map Subtype.val
  literal schema := schema.payload.description?.bind fun doc => (nonNullAllowed doc).head?
  values schema := (schema.payload.description?.map nonNullAllowed).getD []
  positions schema := answerAll do
    return (← documents (← documentOf schema) "ordered").map Subtype.val
  rest schema := answer? do elementDocument? (← documentOf schema)
  recordKey schema := answer? do
    return (← leadingPattern? (← documentOf schema)).map fun part => keyDocument part.1
  recordValue schema := answer? do
    return (← recordRule? (← documentOf schema)).map Subtype.val
  constraints schema := (schema.payload.description?.map constraints).filter fun c => !c.isEmpty
  description schema := schema.payload.description?.bind (flagText? · "description")
  title schema := schema.payload.description?.bind (flagText? · "label")
  default schema := schema.payload.description?.bind (flag? · "default")
  examples schema :=
    ((schema.payload.description?.bind (·.get? "examples")).bind Json.asArray?).getD []
  isDeprecated schema := schema.payload.description?.any (flagIsSet · "deprecated")
  validate schema data := pure do validate (← documentOf schema) data

end SchemaBridge.Describe
