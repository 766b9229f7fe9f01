import SchemaBridge.Compile.Ledger

/-!
# Modifier chains

A node may stand inside any number of modifier layers, each perhaps of another vendor. Peeling takes
the layers off, from the outside in, until a node without modifier is reached, until a node in
progress is met again, or until nobody claims the node inside. Every node on the way is in progress
from then on.

## Main definitions

* `PeeledLayer` : a modifier that has been taken off.
* `ChainEnd` : where a chain ends.
* `Peeled` : what has been taken off so far.
* `Chain.peel` : takes the layers off.
-/

namespace SchemaBridge

/-- A modifier layer that has been taken off. -/
structure PeeledLayer (π : Type) where
  node : Node π
  adapter : Adapter π
  modifier : Modifier

/-- Where a chain of modifiers ends. -/
inductive ChainEnd (π : Type) where
  /-- At a node without modifier, or at a modifier that wraps nothing. -/
  | base (node : Node π) (adapter : Adapter π) (modifier : Option Modifier)
  /-- At a node in progress. -/
  | reentered (node : Node π)
  /-- At a node that nobody claims. -/
  | unclaimed

/-- What has been taken off a node so far. -/
structure Peeled (π : Type) where
  /-- The layers, the innermost first. -/
  layers : List (PeeledLayer π)
  /-- The nodes that work was started on, the outermost first. -/
  entered : List Identity
  /-- Some layer is optional. -/
  isOptional : Bool

namespace Chain

variable {π : Type}

/-- What a layer adds to what has been taken off. -/
def push (peeled : Peeled π) (layer : PeeledLayer π) : Peeled π :=
  { peeled with layers := layer :: peeled.layers }

/-- Notes whether a modifier is optional. -/
def noteModifier (peeled : Peeled π) (modifier : Modifier) : Peeled π :=
  { peeled with isOptional := peeled.isOptional || modifier = .optional }

/-- Takes the layers off a node of an adapter. The first argument is the number of layers that may
still be taken off. What was taken off is answered in any case, beside the end of the chain or the
failure that was met. -/
def peel (context : CompileContext π) : Nat → Peeled π → Node π → Adapter π →
    CompileM (Peeled π × Except CompileFailure (ChainEnd π))
  | room, peeled, node, adapter =>
    match adapter.modifier? node with
    | none => return (peeled, .ok (.base node adapter none))
    | some modifier =>
      match room with
      | 0 => return (peeled, .error (.endless adapter.vendor))
      | room + 1 => do
        let peeled := noteModifier peeled modifier
        match ← (Ledger.ask (adapter.inner node)).run with
        | .error failure => return (peeled, .error failure)
        | .ok none => return (peeled, .ok (.base node adapter (some modifier)))
        | .ok (some inner) =>
          let peeled := push peeled ⟨node, adapter, modifier⟩
          if ← Ledger.isActive inner then return (peeled, .ok (.reentered inner))
          else
            Ledger.beginWork inner
            let peeled := { peeled with entered := peeled.entered ++ [inner.id] }
            match ← Ledger.resolve context inner with
            | some next => peel context room peeled inner next
            | none =>
              Ledger.report (.unclaimedInner inner.typeName)
              return (peeled, .ok .unclaimed)

end Chain

end SchemaBridge
