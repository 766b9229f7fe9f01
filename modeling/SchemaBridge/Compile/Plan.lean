import SchemaBridge.Compile.Assembly

/-!
# Plans

What is to be done for the structure of a node: questions to its adapter, and parts to be compiled,
in an order that may depend on the answers. A plan says nothing about how a question is put or how a
part is compiled; it is carried out by whoever knows.

## Main definitions

* `NodeSchema` : what the compilation of a node answers to its parent.
* `Plan` : questions and parts.
* `Plan.question`, `Plan.part`, `Plan.parts` : the steps of a plan.
* `Plan.run` : carries a plan out.
-/

namespace SchemaBridge

/-- What the compilation of a node answers to its parent. -/
structure NodeSchema where
  schema : Json.Fields
  /-- Some layer around the node is optional. -/
  isOptional : Bool
  /-- The family of the bounds of the node. -/
  bounds : BoundsFamily

namespace NodeSchema

/-- The answer of a node that need not be optional. -/
def required (schema : Json.Fields) (bounds : BoundsFamily) : NodeSchema := ⟨schema, false, bounds⟩

/-- The schema that accepts anything. -/
def empty : NodeSchema := ⟨[], false, .value⟩

/-- The answer as a JSON object. -/
def toJson (c : NodeSchema) : Json := .object c.schema

end NodeSchema

/-- Questions to put and parts to compile on the way to a value. -/
inductive Plan (π α : Type) : Type 1 where
  /-- Nothing is left to be done. -/
  | done (value : α)
  /-- A question is put; what comes next depends on the answer. -/
  | ask {β : Type} (answer : Answer β) (next : β → Plan π α)
  /-- A part is compiled; what comes next may depend on its schema. -/
  | compile (part : Node π) (next : NodeSchema → Plan π α)

namespace Plan

variable {π α β : Type}

/-- One plan after another. -/
def andThen : Plan π α → (α → Plan π β) → Plan π β
  | done value, after => after value
  | ask answer next, after => ask answer fun a => (next a).andThen after
  | compile part next, after => compile part fun c => (next c).andThen after

instance : Monad (Plan π) where
  pure := done
  bind := andThen

/-- Puts a question. -/
def question (answer : Answer β) : Plan π β := ask answer done

/-- Compiles a part. -/
def part (node : Node π) : Plan π NodeSchema := compile node done

/-- Compiles a part, if there is one. -/
def part? : Option (Node π) → Plan π (Option NodeSchema)
  | none => pure none
  | some node => do return some (← part node)

/-- Compiles parts, in order. -/
def parts : List (Node π) → Plan π (List NodeSchema)
  | [] => pure []
  | node :: rest => do
    let c ← part node
    return c :: (← parts rest)

/-- Compiles the parts of an object, in order. -/
def entries : List (String × Node π) → Plan π (List (String × NodeSchema))
  | [] => pure []
  | (key, node) :: rest => do
    let c ← part node
    return (key, c) :: (← entries rest)

/-- Carries a plan out, given how questions are put and how parts are compiled. -/
def run {m : Type → Type} [Monad m] (put : {γ : Type} → Answer γ → m γ)
    (child : Node π → m NodeSchema) : Plan π α → m α
  | done value => pure value
  | ask answer next => do (next (← put answer)).run put child
  | compile part next => do (next (← child part)).run put child

end Plan

end SchemaBridge
