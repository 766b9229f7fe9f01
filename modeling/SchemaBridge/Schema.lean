import SchemaBridge.Adapter.Basic
import SchemaBridge.Fluent.Basic
import SchemaBridge.Scripted.Basic

/-!
# Schemas of the vendors at hand

The nodes of the vendors that come with the library. A node of one vendor may hold nodes of the
others. Nodes that are not held are named: by slots, which may be defined after the nodes that refer
to them, and by getters. A scope says what such a name stands for, so that schemas can be recursive
although every node is a finite value.

## Main definitions

* `Payload`, `Schema` : what a node holds, and the nodes that hold it.
* `Fluent.Layer` : the fluent layers over such nodes.
* `Scope` : what slots and getters stand for.
* `Scope.target` : the node of a deferred layer.
-/

namespace SchemaBridge

/-- What a node holds; `γ` is the type of getters. -/
inductive Payload (γ : Type) where
  /-- A layer of a fluent schema. -/
  | fluent (layer : Fluent γ (Node (Payload γ)))
  /-- A description document. -/
  | description (document : Json)
  /-- A scripted schema. -/
  | scripted (script : Script γ)
  /-- A value of no vendor. -/
  | foreign

/-- A node of the vendors at hand. -/
abbrev Schema (γ : Type) := Node (Payload γ)

/-- A layer of a fluent schema over such nodes. -/
abbrev Fluent.Layer (γ : Type) := Fluent γ (Schema γ)

/-- What slots and getters stand for. -/
structure Scope (γ : Type) where
  /-- What a slot was defined as, if it is defined. -/
  slots : String → Option (Schema γ)
  /-- What a getter builds. -/
  build : γ → Fresh (Schema γ)

namespace Payload

variable {γ : Type}

/-- The layer of a fluent schema. -/
def fluent? : Payload γ → Option (Fluent.Layer γ)
  | fluent layer => some layer
  | _ => none

/-- The document of a description. -/
def description? : Payload γ → Option Json
  | description document => some document
  | _ => none

/-- The script of a scripted schema. -/
def scripted? : Payload γ → Option (Script γ)
  | scripted script => some script
  | _ => none

end Payload

namespace Schema

variable {γ : Type}

/-- A new node of a fluent layer. -/
def ofFluent (layer : Fluent.Layer γ) : Fresh (Schema γ) :=
  Node.fresh "polyschema_mock::fluent::Fluent" (.fluent layer)

/-- A new node of a description document. -/
def ofDescription (document : Json) : Fresh (Schema γ) :=
  Node.fresh "polyschema_mock::describe::Descriptor" (.description document)

/-- A new node of a script. -/
def ofScript (typeName : String) (script : Script γ) : Fresh (Schema γ) :=
  Node.fresh typeName (.scripted script)

/-- A new node that no vendor claims. -/
def ofForeign (typeName : String) : Fresh (Schema γ) := Node.fresh typeName .foreign

end Schema

namespace Scope

variable {γ : Type}

/-- The node of a deferred layer: it fails for a slot that is not defined. -/
def target (scope : Scope γ) : Fluent.Deferred γ → Answer (Schema γ)
  | .slot name =>
    match scope.slots name with
    | some node => pure node
    | none => Adapter.fail (.malformed Fluent.vendor "lazy schema used before it was defined")
  | .getter build => ExceptT.lift (scope.build build)

/-- The text that shows a slot in diagnostics. -/
def displaySlot (scope : Scope γ) (name : String) : String :=
  let defined := (scope.slots name).isSome
  "Recursive \x7b defined: " ++ (if defined then "true" else "false") ++ " \x7d"

end Scope

end SchemaBridge
