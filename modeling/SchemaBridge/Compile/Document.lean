import SchemaBridge.Compile.Chain
import SchemaBridge.Compile.Structure

/-!
# Compiled documents

The compilation of a node: its modifiers are taken off, what is left is compiled by its shape, and
the layers are laid on again from the inside out. A node that is met again while it is in progress
becomes a reference, and gets a definition when its own compilation ends. Compilation always
answers: an adapter error turns the node that it concerns, and no other one, into the empty schema.

## Main definitions

* `Compile.finish` : the assembly of a node whose modifiers have been taken off.
* `Compile.step`, `Compile.node` : the compilation of a node.
* `Registry.compile` : the document of a node.
-/

namespace SchemaBridge

namespace Compile

variable {π : Type}

/-- The assembly at the end of a chain. -/
def core (context : CompileContext π) (child : Node π → CompileM NodeSchema)
    (entered : List Identity) : ChainEnd π → ExceptT CompileFailure CompileM Assembly
  | .base node adapter modifier => do
    let family := ((adapter.shape? node).map Shape.bounds).getD .value
    ExceptT.lift (Ledger.noteFamily family entered)
    let assembly ← Structure.compile context child node adapter
    let assembly := assembly.addLayer adapter node modifier
    ExceptT.lift (Ledger.complete node assembly)
    return assembly
  | .reentered node => do
    let (schema, bounds) ← ExceptT.lift (Ledger.refer context node)
    return { body := schema, bounds }
  | .unclaimed => return .any

/-- Lays a layer on an assembly. -/
def rewrap (assembly : Assembly) (layer : PeeledLayer π) : CompileM Assembly := do
  let assembly := assembly.addLayer layer.adapter layer.node (some layer.modifier)
  Ledger.complete layer.node assembly
  return assembly

/-- Lays layers on an assembly, one after the other. -/
def rewrapAll : Assembly → List (PeeledLayer π) → CompileM Assembly
  | assembly, [] => pure assembly
  | assembly, layer :: rest => do
    let assembly ← rewrap assembly layer
    rewrapAll assembly rest

/-- The assembly of a node whose modifiers have been taken off. -/
def finish (context : CompileContext π) (child : Node π → CompileM NodeSchema) (peeled : Peeled π) :
    Except CompileFailure (ChainEnd π) → ExceptT CompileFailure CompileM Assembly
  | .error failure => throw failure
  | .ok stop => do
    let assembly ← core context child peeled.entered stop
    ExceptT.lift (rewrapAll assembly peeled.layers)

/-- The compilation of a node of an adapter that is not in progress. -/
def claimed (context : CompileContext π) (child : Node π → CompileM NodeSchema) (node : Node π)
    (adapter : Adapter π) : CompileM NodeSchema := do
  Ledger.beginWork node
  let (peeled, stop) ←
    Chain.peel context context.options.maxDepth ⟨[], [node.id], false⟩ node adapter
  let result ← (finish context child peeled stop).run
  Ledger.endWork peeled.entered
  match result with
  | .ok assembly => return ⟨assembly.schema, peeled.isOptional, assembly.bounds⟩
  | .error failure =>
    Ledger.report (.givenUp failure)
    Ledger.abandon peeled.entered
    return { NodeSchema.empty with isOptional := peeled.isOptional }

/-- The compilation of a node, if its parts are compiled by `child?`, which is there unless the node
lies beyond the depth limit. -/
def step (context : CompileContext π) (child? : Option (Node π → CompileM NodeSchema))
    (node : Node π) : CompileM NodeSchema := do
  if ← Ledger.isActive node then
    let (schema, bounds) ← Ledger.refer context node
    return .required schema bounds
  else
    match child? with
    | none =>
      Ledger.report (.tooDeep context.options.maxDepth node.typeName)
      return .empty
    | some child =>
      match ← Ledger.resolve context node with
      | none =>
        Ledger.report (.unclaimed node.typeName)
        return .empty
      | some adapter => claimed context child node adapter

/-- The compilation of a node that may have this many levels of nodes, itself included. -/
def node (context : CompileContext π) : Nat → Node π → CompileM NodeSchema
  | 0 => step context none
  | levels + 1 => step context (some (node context levels))

/-- The document of a root schema and its definitions. -/
def document (options : DocumentOptions) (root : Json.Fields) (defs : Table String Json.Fields) :
    Json :=
  let head : Json.Fields := options.schemaUri.toList.map fun uri => ("$schema", .string uri)
  let body := root.foldl (fun t entry => Table.put t entry.1 entry.2) head
  .object <| if defs.isEmpty then body
    else Table.put body "$defs" (.object (defs.map fun entry => (entry.1, .object entry.2)))

end Compile

namespace Registry

variable {π : Type}

/-- The document of a node. -/
def compile (registry : Registry π) (options : DocumentOptions) (node : Node π) :
    Fresh (Logged Json) := fun supply =>
  let (root, ledger) :=
    (Compile.node ⟨registry, options⟩ (options.maxDepth + 1) node).run (Ledger.start supply)
  (⟨ledger.events.reverse, Compile.document options root.schema ledger.definitions⟩, ledger.supply)

end Registry

end SchemaBridge
