import SchemaBridge.Text.Quoted

/-!
# Schema nodes

A node is a handle to one value of some vendor's schema representation. Its identity, not its
content, says which node it is: a schema that reaches one node twice is recursive or shared, and two
nodes of equal content are different nodes. Identities are handed out by a supply, which is the
state of every computation that builds nodes.

## Main definitions

* `Identity`, `Node` : identities and handles.
* `Fresh` : computations that may build nodes.
* `Node.fresh` : a new node, different from all nodes built before.
* `Node.display` : the text that shows a node.
-/

namespace SchemaBridge

/-- The identity of a node. -/
structure Identity where
  index : Nat
  deriving DecidableEq, Repr

/-- A handle to a vendor's schema value. The type name only serves diagnostics. -/
structure Node (π : Type) where
  id : Identity
  typeName : String
  payload : π

/-- Computations that may build nodes; the state is the next unused identity. -/
abbrev Fresh := StateM Nat

namespace Node

variable {π : Type}

/-- A new node. -/
def fresh (typeName : String) (payload : π) : Fresh (Node π) := fun next =>
  (⟨⟨next⟩, typeName, payload⟩, next + 1)

/-- The two handles are handles to one node. -/
def sameNode (a b : Node π) : Bool := a.id = b.id

/-- The text that shows a node in diagnostics. Identities mean nothing to a reader, so that of the
node is masked. -/
def display (node : Node π) : String :=
  "SchemaNode \x7b id: NodeId(#), type: " ++ Quoted.text node.typeName ++ " \x7d"

end Node

end SchemaBridge
