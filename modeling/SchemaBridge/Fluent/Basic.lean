import SchemaBridge.Constraints
import SchemaBridge.Predicate
import SchemaBridge.Text.Quoted

/-!
# Fluent schemas

The schemas of the vendor `fluent`. Every modifier is a layer of its own around another node, so one
logical schema is a stack of layers over a structural kind. Constraints and details belong to the
layer that they were set on. A deferred layer does not hold what it stands for: it names it, by a
slot or by a getter.

## Main definitions

* `Fluent.Kind` : what a layer is, over a type `ν` of nodes and a type `γ` of getters.
* `Fluent.Details` : what is set on a layer.
* `Fluent` : a layer.
* `Fluent.Kind.predicate` : the predicate that holds of a kind.
-/

namespace SchemaBridge

namespace Fluent

/-- The name of what a deferred layer stands for. -/
inductive Deferred (γ : Type) where
  /-- What a slot was defined as; it may not be defined yet. -/
  | slot (name : String)
  /-- What a getter builds, anew every time. -/
  | getter (build : γ)

/-- What a layer is: a structural kind over nodes `ν`, or a modifier of one node. -/
inductive Kind (γ ν : Type) where
  | string
  | number
  | boolean
  | null
  | undefined
  | void
  | any
  | unknown
  | never
  | bigint
  | symbol
  | function
  | date
  | literal (value : Json)
  | enumeration (values : List Json)
  | instanceOf (className : String)
  | object (entries : List (String × ν))
  | array (element : ν)
  | tuple (items : List ν) (rest : Option ν)
  | union (options : List ν)
  | intersection (parts : List ν)
  | record (key value : ν)
  | map (key value : ν)
  | set (element : ν)
  | promise (inner : ν)
  | optional (inner : ν)
  | nullable (inner : ν)
  | defaulted (inner : ν) (value : Json)
  | caught (inner : ν) (value : Json)
  | refined (inner : ν) (message : String) (holds : Json → Bool)
  | branded (inner : ν) (name : String)
  | transformed (inner : ν) (apply : Json → Json)
  | deferred (target : Deferred γ)

/-- What is set on a layer. -/
structure Details where
  constraints : Constraints := .empty
  title : Option String := none
  description : Option String := none
  examples : List Json := []
  deprecated : Bool := false

end Fluent

/-- A layer of a fluent schema. -/
structure Fluent (γ ν : Type) where
  kind : Fluent.Kind γ ν
  details : Fluent.Details := {}

namespace Fluent

variable {γ ν : Type}

/-- The name of the vendor. -/
def vendor : String := "fluent"

namespace Kind

/-- The predicate that holds of a kind; no other one does. -/
def predicate : Kind γ ν → TypePredicate
  | string => .shape .string
  | number => .shape .number
  | boolean => .shape .boolean
  | null => .shape .null
  | undefined => .shape .undefined
  | void => .shape .void
  | any => .shape .any
  | unknown => .shape .unknown
  | never => .shape .never
  | bigint => .shape .bigint
  | symbol => .shape .symbol
  | function => .shape .function
  | date => .shape .date
  | literal _ => .shape .literal
  | enumeration _ => .shape .enumeration
  | instanceOf _ => .shape .instanceOf
  | object _ => .shape .object
  | array _ => .shape .array
  | tuple _ _ => .shape .tuple
  | union _ => .shape .union
  | intersection _ => .shape .intersection
  | record _ _ => .shape .record
  | map _ _ => .shape .map
  | set _ => .shape .set
  | promise _ => .shape .promise
  | optional _ => .modifier .optional
  | nullable _ => .modifier .nullable
  | defaulted _ _ => .modifier .defaulted
  | caught _ _ => .modifier .caught
  | refined _ _ _ => .modifier .refined
  | branded _ _ => .modifier .branded
  | transformed _ _ => .modifier .transformed
  | deferred _ => .modifier .deferred

/-- The word for a kind in diagnostics. -/
def word (kind : Kind γ ν) : String :=
  match kind.predicate with
  | .shape .instanceOf => "instanceof"
  | .modifier .branded => "brand"
  | predicate => predicate.word

end Kind

/-- The text that shows a layer in diagnostics. -/
def display (schema : Fluent γ ν) : String :=
  "Fluent \x7b kind: " ++ Quoted.text schema.kind.word ++ ", title: " ++
    Quoted.option schema.details.title ++ ", .. \x7d"

end Fluent

end SchemaBridge
