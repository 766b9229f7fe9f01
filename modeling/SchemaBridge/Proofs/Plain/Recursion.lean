import SchemaBridge.Proofs.Compile.Outcome

/-!
# Plain compilation

The compilation of a node without any books: a recursion on nodes that knows neither which nodes are
in progress nor any names, families or definitions. Nodes are dispatched to adapters, put together
and given up as in the compilation proper, and under the same limits; the only state is the supply
of identities.

## Main definitions

* `Plain.peel` : takes the layers off.
* `Plain.node` : the compilation of a node.
* `Registry.compilePlainly` : the document of a node, which has no definitions.
-/

namespace SchemaBridge

namespace Plain

variable {π α β : Type}

open Stateful

/-- Puts a question to an adapter. -/
def ask (answer : Answer β) : ExceptT CompileFailure Fresh β :=
  ExceptT.mk fun supply => ((answer supply).1.mapError .raised, (answer supply).2)

/-- Carries a plan out. -/
def carryOut (child : Node π → Fresh NodeSchema) (plan : Plan π α) :
    ExceptT CompileFailure Fresh α :=
  plan.run ask fun part => ExceptT.lift (child part)

/-- The layers of a node from the outside in, whether one of them is optional, and where they
end. -/
def peel (registry : Registry π) : Nat → Node π → Adapter π →
    Fresh ((List (PeeledLayer π) × Bool) × Except CompileFailure (ChainEnd π))
  | room, node, adapter =>
    match adapter.modifier? node with
    | none => return (([], false), .ok (.base node adapter none))
    | some modifier =>
      match room with
      | 0 => return (([], false), .error (.endless adapter.vendor))
      | room + 1 => do
        match ← (ask (adapter.inner node)).run with
        | .error failure => return (([], decide (modifier = .optional)), .error failure)
        | .ok none =>
          return (([], decide (modifier = .optional)), .ok (.base node adapter (some modifier)))
        | .ok (some inner) =>
          match (registry.resolve inner).value with
          | none => return (([⟨node, adapter, modifier⟩], decide (modifier = .optional)),
              .ok .unclaimed)
          | some next => do
            let ((layers, isOptional), stop) ← peel registry room inner next
            return ((⟨node, adapter, modifier⟩ :: layers,
              decide (modifier = .optional) || isOptional), stop)

/-- The assembly of a node without modifiers. -/
def structured (options : DocumentOptions) (child : Node π → Fresh NodeSchema) (node : Node π)
    (adapter : Adapter π) : ExceptT CompileFailure Fresh Assembly :=
  match adapter.shape? node with
  | some shape => carryOut child (Structure.ofShape options node adapter shape)
  | none => pure .any

/-- The assembly of a node whose modifiers have been taken off. -/
def finish (options : DocumentOptions) (child : Node π → Fresh NodeSchema)
    (layers : List (PeeledLayer π)) :
    Except CompileFailure (ChainEnd π) → ExceptT CompileFailure Fresh Assembly
  | .error failure => throw failure
  | .ok (.base node adapter modifier) => do
    let assembly ← structured options child node adapter
    return Chain.wrap layers (assembly.addLayer adapter node modifier)
  | .ok _ => return Chain.wrap layers .any

/-- The compilation of a node of an adapter. -/
def claimed (context : CompileContext π) (child : Node π → Fresh NodeSchema) (node : Node π)
    (adapter : Adapter π) : Fresh NodeSchema := do
  let ((layers, isOptional), stop) ← peel context.registry context.options.maxDepth node adapter
  match ← (finish context.options child layers stop).run with
  | .ok assembly => return ⟨assembly.schema, isOptional, assembly.bounds⟩
  | .error _ => return { NodeSchema.empty with isOptional }

/-- The compilation of a node that may have this many levels of nodes, itself included. -/
def node (context : CompileContext π) : Nat → Node π → Fresh NodeSchema
  | 0, _ => return .empty
  | levels + 1, n =>
    match (context.registry.resolve n).value with
    | none => return .empty
    | some adapter => claimed context (node context levels) n adapter

/-! ### Plain computations, one step at a time -/

section

variable (child : Node π → Fresh NodeSchema)

theorem ask_of_ok {answer : Answer β} {supply next : Nat} {given : β}
    (h : answer supply = (.ok given, next)) : ask answer supply = (.ok given, next) := by
  change ((answer supply).1.mapError _, (answer supply).2) = _
  rw [h]
  rfl

theorem ask_of_error {answer : Answer β} {supply next : Nat} {error : VendorError}
    (h : answer supply = (.error error, next)) :
    ask answer supply = (.error (.raised error), next) := by
  change ((answer supply).1.mapError _, (answer supply).2) = _
  rw [h]
  rfl

theorem carryOut_ask_of_ok {answer : Answer β} (next : β → Plan π α) {supply later : Nat}
    {given : β} (h : answer supply = (.ok given, later)) :
    carryOut child (.ask answer next) supply = carryOut child (next given) later :=
  Stateful.bind_of_ok _ (ask_of_ok h)

theorem carryOut_ask_of_error {answer : Answer β} (next : β → Plan π α) {supply later : Nat}
    {error : VendorError} (h : answer supply = (.error error, later)) :
    carryOut child (.ask answer next) supply = (.error (.raised error), later) :=
  Stateful.bind_of_error _ (ask_of_error h)

theorem carryOut_compile (part : Node π) (next : NodeSchema → Plan π α) (supply : Nat) :
    carryOut child (.compile part next) supply =
      carryOut child (next (child part supply).1) (child part supply).2 := rfl

end

section

variable (registry : Registry π) (room : Nat) {n inner : Node π} {adapter next : Adapter π}
  {modifier : Modifier} {supply later : Nat}

theorem peel_of_plain (plain : adapter.modifier? n = none) :
    peel registry room n adapter supply = ((([], false), .ok (.base n adapter none)), supply) := by
  rw [peel, plain]
  rfl

theorem peel_zero (wrapped : adapter.modifier? n = some modifier) :
    peel registry 0 n adapter supply =
      ((([], false), .error (.endless adapter.vendor)), supply) := by
  rw [peel, wrapped]
  rfl

variable (wrapped : adapter.modifier? n = some modifier)
include wrapped

theorem peel_of_error {error : VendorError} (h : adapter.inner n supply = (.error error, later)) :
    peel registry (room + 1) n adapter supply =
      ((([], decide (modifier = .optional)), .error (.raised error)), later) := by
  rw [peel]
  simp only [wrapped]
  rw [bind_apply, run_apply, ask_of_error h]
  rfl

theorem peel_of_hollow (h : adapter.inner n supply = (.ok none, later)) :
    peel registry (room + 1) n adapter supply =
      ((([], decide (modifier = .optional)), .ok (.base n adapter (some modifier))), later) := by
  rw [peel]
  simp only [wrapped]
  rw [bind_apply, run_apply, ask_of_ok h]
  rfl

theorem peel_of_unclaimed (h : adapter.inner n supply = (.ok (some inner), later))
    (nobody : (registry.resolve inner).value = none) :
    peel registry (room + 1) n adapter supply =
      ((([⟨n, adapter, modifier⟩], decide (modifier = .optional)), .ok .unclaimed), later) := by
  rw [peel]
  simp only [wrapped]
  rw [bind_apply, run_apply, ask_of_ok h]
  simp only [nobody]
  rw [pure_apply]

theorem peel_of_layer (h : adapter.inner n supply = (.ok (some inner), later))
    (claims : (registry.resolve inner).value = some next) {layers : List (PeeledLayer π)}
    {isOptional : Bool} {stop : Except CompileFailure (ChainEnd π)} {last : Nat}
    (rest : peel registry room inner next later = (((layers, isOptional), stop), last)) :
    peel registry (room + 1) n adapter supply =
      (((⟨n, adapter, modifier⟩ :: layers, decide (modifier = .optional) || isOptional), stop),
        last) := by
  rw [peel]
  simp only [wrapped]
  rw [bind_apply, run_apply, ask_of_ok h]
  simp only [claims]
  rw [bind_apply, rest, pure_apply]

end

section

variable (child : Node π → Fresh NodeSchema) (layers : List (PeeledLayer π))

theorem finish_of_ok (options : DocumentOptions) {base : Node π} {adapter : Adapter π}
    (modifier : Option Modifier) {supply later : Nat} {assembly : Assembly}
    (h : structured options child base adapter supply = (.ok assembly, later)) :
    finish options child layers (.ok (.base base adapter modifier)) supply =
      (.ok (Chain.wrap layers (assembly.addLayer adapter base modifier)), later) :=
  bind_of_ok _ h

theorem finish_of_error (options : DocumentOptions) {base : Node π} {adapter : Adapter π}
    (modifier : Option Modifier) {supply later : Nat} {failure : CompileFailure}
    (h : structured options child base adapter supply = (.error failure, later)) :
    finish options child layers (.ok (.base base adapter modifier)) supply =
      (.error failure, later) :=
  bind_of_error _ h

variable (context : CompileContext π) {n : Node π} {adapter : Adapter π} {supply later last : Nat}
  {layers : List (PeeledLayer π)} {isOptional : Bool}
  {stop : Except CompileFailure (ChainEnd π)}
  (peeled : peel context.registry context.options.maxDepth n adapter supply =
    (((layers, isOptional), stop), later))
include peeled

theorem claimed_of_ok {assembly : Assembly}
    (h : finish context.options child layers stop later = (.ok assembly, last)) :
    claimed context child n adapter supply =
      (⟨assembly.schema, isOptional, assembly.bounds⟩, last) := by
  rw [claimed, bind_apply, peeled]
  dsimp only
  rw [bind_apply, run_apply, h]
  rfl

theorem claimed_of_error {failure : CompileFailure}
    (h : finish context.options child layers stop later = (.error failure, last)) :
    claimed context child n adapter supply = (⟨[], isOptional, .value⟩, last) := by
  rw [claimed, bind_apply, peeled]
  dsimp only
  rw [bind_apply, run_apply, h]
  rfl

end

end Plain

/-- The document of a node by plain compilation. -/
def Registry.compilePlainly {π : Type} (registry : Registry π) (options : DocumentOptions)
    (node : Node π) : Fresh Json := do
  let root ← Plain.node ⟨registry, options⟩ (options.maxDepth + 1) node
  return Compile.document options root.schema []

end SchemaBridge
