import SchemaBridge.Schema

/-!
# Building fluent schemas

A schema is built from a kind by setting details on the outermost layer and by laying modifiers
around it. A modifier freezes what has been built so far into a node and starts a new layer without
details.

## Main definitions

* `Fluent.ofKind` : a layer without details.
* `Fluent.atLeast`, `Fluent.titled`, … : setting a detail.
* `Fluent.enclose` : laying a modifier around a layer.
-/

namespace SchemaBridge.Fluent

variable {γ ν : Type}

/-- A layer without details. -/
def ofKind (kind : Kind γ ν) : Fluent γ ν := { kind }

/-! ### Details -/

/-- Changes the constraints of the layer. -/
def mapConstraints (layer : Fluent γ ν) (change : Constraints → Constraints) : Fluent γ ν :=
  { layer with details := { layer.details with constraints := change layer.details.constraints } }

/-- The layer with a lower bound. -/
def atLeast (layer : Fluent γ ν) (bound : Binary64) : Fluent γ ν :=
  layer.mapConstraints fun c => { c with min := some bound }

/-- The layer with an upper bound. -/
def atMost (layer : Fluent γ ν) (bound : Binary64) : Fluent γ ν :=
  layer.mapConstraints fun c => { c with max := some bound }

/-- The layer with a least length. -/
def lengthAtLeast (layer : Fluent γ ν) (length : Nat) : Fluent γ ν :=
  layer.mapConstraints fun c => { c with minLength := some length }

/-- The layer with a greatest length. -/
def lengthAtMost (layer : Fluent γ ν) (length : Nat) : Fluent γ ν :=
  layer.mapConstraints fun c => { c with maxLength := some length }

/-- The layer with a pattern. -/
def matching (layer : Fluent γ ν) (pattern : String) : Fluent γ ν :=
  layer.mapConstraints fun c => { c with pattern := some pattern }

/-- The layer with a format. -/
def inFormat (layer : Fluent γ ν) (format : String) : Fluent γ ν :=
  layer.mapConstraints fun c => { c with format := some format }

/-- The layer with a title. -/
def titled (layer : Fluent γ ν) (title : String) : Fluent γ ν :=
  { layer with details := { layer.details with title := some title } }

/-- The layer with a description. -/
def described (layer : Fluent γ ν) (description : String) : Fluent γ ν :=
  { layer with details := { layer.details with description := some description } }

/-- The layer with one more example. -/
def exemplified (layer : Fluent γ ν) (value : Json) : Fluent γ ν :=
  { layer with details := { layer.details with examples := layer.details.examples ++ [value] } }

/-- The layer marked as deprecated. -/
def deprecated (layer : Fluent γ ν) : Fluent γ ν :=
  { layer with details := { layer.details with deprecated := true } }

/-! ### Modifiers -/

/-- Freezes a layer into a node and lays a modifier around it. -/
def enclose (layer : Layer γ) (modifier : Schema γ → Kind γ (Schema γ)) : Fresh (Layer γ) := do
  let node ← Schema.ofFluent layer
  return ofKind (modifier node)

/-- The value may be absent. -/
def optional (layer : Layer γ) : Fresh (Layer γ) := layer.enclose .optional

/-- The value may be `null`. -/
def nullable (layer : Layer γ) : Fresh (Layer γ) := layer.enclose .nullable

/-- The value stands in for an absent one. -/
def defaultingTo (layer : Layer γ) (value : Json) : Fresh (Layer γ) :=
  layer.enclose fun inner => .defaulted inner value

/-- The value stands in for an invalid one. -/
def fallingBackTo (layer : Layer γ) (value : Json) : Fresh (Layer γ) :=
  layer.enclose fun inner => .caught inner value

/-- The output must satisfy a condition. -/
def refinedBy (layer : Layer γ) (message : String) (holds : Json → Bool) : Fresh (Layer γ) :=
  layer.enclose fun inner => .refined inner message holds

/-- The layer under a name of its own. -/
def branded (layer : Layer γ) (name : String) : Fresh (Layer γ) :=
  layer.enclose fun inner => .branded inner name

/-- The output is changed by a function. -/
def transformedBy (layer : Layer γ) (apply : Json → Json) : Fresh (Layer γ) :=
  layer.enclose fun inner => .transformed inner apply

end SchemaBridge.Fluent
