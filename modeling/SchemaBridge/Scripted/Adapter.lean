import SchemaBridge.Schema

/-!
# Adapters of scripted schemas

A scripted schema may be claimed by any number of vendors. The scripted adapter of a vendor answers
from the script of a node, and builds the nodes that the script names anew for every question. The
bare and the greedy adapter of a vendor answer every question by the default; they differ in the
nodes that they claim.

## Main definitions

* `Script.adapter` : answers from the script.
* `Script.bareAdapter` : claims the scripted schemas of the vendor, and answers nothing.
* `Script.greedyAdapter` : claims every node, and answers nothing.
-/

namespace SchemaBridge.Script

variable {γ α β : Type}

/-- The script of the node lists the vendor. -/
def claimedBy (vendor : String) (schema : Schema γ) : Bool :=
  schema.payload.scripted?.any fun script => script.vendors.contains vendor

/-- What a script replies to a question, raised in the name of a vendor if it is a failure. -/
def reply (vendor : String) : Except Failure α → Except VendorError α :=
  Except.mapError (·.toError vendor)

/-- The answer for one node that a script may name. -/
def one (scope : Scope γ) (vendor : String) (question : Script γ → Option (Except Failure γ))
    (schema : Schema γ) : Answer (Option (Schema γ)) := do
  match schema.payload.scripted?.bind question with
  | none => return none
  | some listed =>
    let getter ← (reply vendor listed : Except VendorError γ)
    return some (← scope.build getter)

/-- The answer for a list of nodes that a script may name. -/
def many (scope : Scope γ) (vendor : String)
    (question : Script γ → Option (Except Failure (List γ))) (schema : Schema γ) :
    Answer (List (Schema γ)) := do
  match schema.payload.scripted?.bind question with
  | none => return []
  | some listed =>
    let getters ← (reply vendor listed : Except VendorError (List γ))
    getters.mapM fun getter => scope.build getter

/-- The answer for the entries of an object. -/
def named (scope : Scope γ) (vendor : String) (schema : Schema γ) :
    Answer (List (String × Schema γ)) := do
  match schema.payload.scripted?.bind entries with
  | none => return []
  | some listed =>
    let getters ← (reply vendor listed : Except VendorError (List (String × γ)))
    getters.mapM fun (key, getter) => return (key, ← scope.build getter)

/-- What a script answers to validation. -/
def verdict (vendor : String) (outcome : Option (Except Failure VendorOutcome)) : Verdict :=
  pure <| match outcome with
    | some listed => reply vendor listed
    | none => .error (.unsupported vendor "validate")

/-- The adapter of a vendor that answers from the scripts of its nodes. -/
def adapter (scope : Scope γ) (vendor : String) : Adapter (Payload γ) where
  vendor := vendor
  claims := claimedBy vendor
  holds predicate schema :=
    schema.payload.scripted?.any fun script => script.predicates.contains predicate
  inner := one scope vendor Script.inner
  entries := named scope vendor
  element := one scope vendor element
  options := many scope vendor options
  literal schema := schema.payload.scripted?.bind literal
  values schema := (schema.payload.scripted?.map values).getD []
  positions := many scope vendor items
  rest := one scope vendor rest
  recordKey := one scope vendor Script.recordKey
  recordValue := one scope vendor Script.recordValue
  mapKey := one scope vendor Script.mapKey
  mapValue := one scope vendor Script.mapValue
  member := one scope vendor Script.member
  parts := many scope vendor parts
  awaited := one scope vendor Script.awaited
  className schema := schema.payload.scripted?.bind Script.className
  constraints schema := schema.payload.scripted?.bind Script.constraints
  description schema := schema.payload.scripted?.bind Script.description
  title schema := schema.payload.scripted?.bind Script.title
  default schema := schema.payload.scripted?.bind Script.default
  examples schema := (schema.payload.scripted?.map Script.examples).getD []
  isDeprecated schema := schema.payload.scripted?.any deprecated
  validate schema _ := verdict vendor (schema.payload.scripted?.bind outcome)
  asyncValidate schema _ := verdict vendor <|
    schema.payload.scripted?.bind fun script => script.asyncOutcome.or script.outcome

/-- An adapter that claims the scripted schemas of a vendor and knows nothing about them. -/
def bareAdapter (vendor : String) : Adapter (Payload γ) where
  vendor := vendor
  claims := claimedBy vendor

/-- An adapter that claims every node and knows nothing about any. -/
def greedyAdapter (vendor : String) : Adapter (Payload γ) where
  vendor := vendor
  claims _ := true

end SchemaBridge.Script
