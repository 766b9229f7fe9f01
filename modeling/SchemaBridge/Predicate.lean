/-!
# Modifiers and shapes

An adapter is asked about a node by predicates of two kinds. A *modifier* is a layer around another
node; a *shape* is what is left when no modifier is. Several predicates may hold of one node: the
first in a fixed order decides.

## Main definitions

* `Modifier`, `Shape`, `TypePredicate` : the predicates.
* `Modifier.priority`, `Shape.priority` : the orders in which they are tried.
* `BoundsFamily` : the family of keywords that a bound of a node is written with.
-/

namespace SchemaBridge

/-- The layers around a node. -/
inductive Modifier where
  | optional | nullable | defaulted | caught | refined | branded | transformed | deferred
  deriving DecidableEq, Repr

/-- The structural kinds of a node. -/
inductive Shape where
  | literal | enumeration | date | instanceOf | bigint | symbol | function | promise | union
  | intersection | tuple | object | array | record | map | set | string | number | boolean | null
  | undefined | void | never | any | unknown
  deriving DecidableEq, Repr

/-- A question that is put to an adapter about a node. -/
inductive TypePredicate where
  | modifier (kind : Modifier)
  | shape (kind : Shape)
  deriving DecidableEq, Repr

/-- The family of keywords that the bounds of a node are written with. -/
inductive BoundsFamily where
  | value | length | items | properties
  deriving DecidableEq, Repr

namespace Modifier

/-- The order in which modifiers are tried. -/
def priority : List Modifier :=
  [optional, nullable, defaulted, caught, refined, branded, transformed, deferred]

/-- The word for a modifier. -/
def word : Modifier → String
  | optional => "optional"
  | nullable => "nullable"
  | defaulted => "default"
  | caught => "catch"
  | refined => "refine"
  | branded => "branded"
  | transformed => "transform"
  | deferred => "lazy"

theorem mem_priority (m : Modifier) : m ∈ priority := by
  cases m <;> decide

end Modifier

namespace Shape

/-- The order in which shapes are tried: literals and enumerations before unions, the special kinds
before the containers, and the kinds that accept anything last. -/
def priority : List Shape :=
  [literal, enumeration, date, instanceOf, bigint, symbol, function, promise, union, intersection,
    tuple, object, array, record, map, set, string, number, boolean, null, undefined, void, never,
    any, unknown]

/-- The word for a shape. -/
def word : Shape → String
  | literal => "literal"
  | enumeration => "enum"
  | date => "date"
  | instanceOf => "instance_of"
  | bigint => "bigint"
  | symbol => "symbol"
  | function => "function"
  | promise => "promise"
  | union => "union"
  | intersection => "intersection"
  | tuple => "tuple"
  | object => "object"
  | array => "array"
  | record => "record"
  | map => "map"
  | set => "set"
  | string => "string"
  | number => "number"
  | boolean => "boolean"
  | null => "null"
  | undefined => "undefined"
  | void => "void"
  | never => "never"
  | any => "any"
  | unknown => "unknown"

/-- The family of the bounds of a shape. -/
def bounds : Shape → BoundsFamily
  | string | date => .length
  | array | tuple | set => .items
  | object | record | map => .properties
  | _ => .value

end Shape

namespace TypePredicate

/-- All predicates, in the order in which they are listed. -/
def all : List TypePredicate :=
  [.shape .string, .shape .number, .shape .boolean, .shape .null, .shape .undefined, .shape .void,
    .shape .any, .shape .unknown, .shape .never, .shape .object, .shape .array, .shape .union,
    .shape .literal, .shape .enumeration, .modifier .optional, .modifier .nullable, .shape .tuple,
    .shape .record, .shape .map, .shape .set, .shape .intersection, .modifier .deferred,
    .modifier .transformed, .modifier .refined, .modifier .defaulted, .modifier .caught,
    .modifier .branded, .shape .date, .shape .bigint, .shape .symbol, .shape .function,
    .shape .promise, .shape .instanceOf]

/-- The word for a predicate. -/
def word : TypePredicate → String
  | modifier m => m.word
  | shape s => s.word

end TypePredicate

namespace BoundsFamily

/-- The keywords of the lower and the upper bound. -/
def keywords : BoundsFamily → String × String
  | value => ("minimum", "maximum")
  | length => ("minLength", "maxLength")
  | items => ("minItems", "maxItems")
  | properties => ("minProperties", "maxProperties")

/-- The keywords of the bounds that are stated as lengths. -/
def countKeywords : BoundsFamily → String × String
  | items => ("minItems", "maxItems")
  | _ => ("minLength", "maxLength")

end BoundsFamily

end SchemaBridge
