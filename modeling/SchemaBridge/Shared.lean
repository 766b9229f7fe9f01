import SchemaBridge.Compile.Document
import SchemaBridge.Validation.Run

/-!
# A shared registry

A program registers its adapters once, in one registry that all of its parts share, and then
compiles and validates without naming it. Every operation works on the registry as it is when the
operation starts.

## Main definitions

* `Shared` : operations on the shared registry.
* `Shared.register`, `Shared.changePolicy` : the operations that change it.
* `Shared.compile`, `Shared.compileUnder` : documents.
* `Shared.validate`, `Shared.asyncValidate` : validation.
-/

namespace SchemaBridge

/-- Operations on the shared registry. They may build nodes, and they report events. -/
abbrev Shared (π : Type) := StateT (Registry π) (StateT Nat Logged)

namespace Shared

variable {π α : Type}

/-- Events on the way to a value. -/
def logged (x : Logged α) : Shared π α := fun registry supply => do return ((← x, registry), supply)

/-- A value that may need new nodes. -/
def fresh (x : Fresh α) : Shared π α := fun registry supply =>
  let (a, supply) := x supply
  pure ((a, registry), supply)

/-- Appends an adapter. -/
def register (adapter : Adapter π) : Shared π Unit := do
  set (← logged ((← get).register adapter))

/-- Changes how nodes that several adapters claim are treated. -/
def changePolicy (policy : ClaimPolicy) : Shared π Unit := do
  logged (Logged.report (.policySet policy))
  modify fun registry => registry.under policy

/-- The document of a node. -/
def compileUnder (options : DocumentOptions) (node : Node π) : Shared π Json := do
  logged (← fresh ((← get).compile options node))

/-- The document of a node under default options. -/
def compile (node : Node π) : Shared π Json := compileUnder {} node

/-- Validates data against a node. -/
def validate (node : Node π) (data : Json) : Shared π ValidationReport := do
  logged ((← get).validate node data)

/-- Validates data against a node with the asynchronous validator of its vendor. -/
def asyncValidate (node : Node π) (data : Json) : Shared π ValidationReport := do
  logged ((← get).asyncValidate node data)

end Shared

end SchemaBridge
