import SchemaBridge.Compile.Failure
import SchemaBridge.Json.Basic
import SchemaBridge.Policy
import SchemaBridge.Text.Quoted

/-!
# Events

What the library reports about its work while it does it. Events never change an answer; they are
collected in the order in which they happen.

## Main definitions

* `Event` : the things that are reported.
* `Event.level`, `Event.message`, `Event.fields` : how an event is shown.
* `Event.reachesLimit` : the events of a compilation that is cut short by the depth limit.
* `Logged` : a value with the events on the way to it.
-/

namespace SchemaBridge

/-- The weight of an event. -/
inductive EventLevel where
  | debug
  | warn
  deriving DecidableEq, Repr

/-- Something that is reported. -/
inductive Event where
  /-- An adapter joins a registry at a position. -/
  | registered (vendor : String) (position : Nat)
  /-- Further adapters claim a node. -/
  | ambiguous (chosen : String) (others : List String) (nodeType : String)
  /-- A registry's policy is changed. -/
  | policySet (policy : ClaimPolicy)
  /-- A node lies deeper than the limit. -/
  | tooDeep (maxDepth : Nat) (nodeType : String)
  /-- No adapter claims a node that is compiled. -/
  | unclaimed (nodeType : String)
  /-- No adapter claims the node inside a modifier. -/
  | unclaimedInner (nodeType : String)
  /-- The adapter of a node sees no shape in it. -/
  | shapeless (vendor nodeType : String)
  /-- A node is given up. -/
  | givenUp (failure : CompileFailure)
  /-- A node in progress is referred to under a name. -/
  | referred (name : String)
  /-- A validator meets a node of another vendor. -/
  | foreignInside (nodeType : String)
  /-- A vendor's validator raised. -/
  | validatorFailed (error : VendorError)
  /-- No adapter claims a node that data is validated against. -/
  | unsupportedNode (nodeType : String)
  deriving DecidableEq, Repr

namespace Event

/-- The weight of an event: a loss of detail is a warning. -/
def level : Event → EventLevel
  | ambiguous .. | tooDeep .. | givenUp .. => .warn
  | _ => .debug

/-- The event says that the depth limit cut a compilation short, along the nesting of nodes or along
a chain of modifiers. -/
def reachesLimit : Event → Bool
  | tooDeep .. | givenUp (.endless _) => true
  | _ => false

/-- The sentence of an event. -/
def message : Event → String
  | registered .. => "registering schema adapter"
  | ambiguous .. => "schema node claimed by several adapters; using first registered"
  | policySet .. => "setting adapter resolve policy"
  | tooDeep .. => "schema nesting exceeds max_depth; emitting empty schema"
  | unclaimed .. => "no adapter claims schema node; emitting empty schema"
  | unclaimedInner .. => "no adapter claims unwrapped schema node; emitting empty schema"
  | shapeless .. => "adapter reports no known shape; emitting empty schema"
  | givenUp .. => "schema node could not be compiled; emitting empty schema"
  | referred .. => "recursive schema reference"
  | foreignInside .. => "foreign node inside fluent schema; accepting value"
  | validatorFailed .. => "vendor validator failed"
  | unsupportedNode .. => "validate called with unclaimed schema node"

/-- The details of an event. -/
def fields : Event → Json.Fields
  | registered vendor position => [("vendor", .string vendor), ("position", .ofNat position)]
  | ambiguous chosen others nodeType =>
    [("chosen", .string chosen), ("also_matching", .string (Quoted.list others)),
      ("node_type", .string nodeType)]
  | policySet policy => [("policy", .string policy.title)]
  | tooDeep maxDepth nodeType =>
    [("max_depth", .ofNat maxDepth), ("node_type", .string nodeType)]
  | unclaimed nodeType => [("node_type", .string nodeType)]
  | unclaimedInner nodeType => [("node_type", .string nodeType)]
  | shapeless vendor nodeType => [("vendor", .string vendor), ("node_type", .string nodeType)]
  | givenUp failure =>
    [("vendor", .string failure.error.vendor), ("error", .string failure.error.display)]
  | referred name => [("def", .string name)]
  | foreignInside nodeType => [("node_type", .string nodeType)]
  | validatorFailed error => [("vendor", .string error.vendor), ("error", .string error.display)]
  | unsupportedNode nodeType => [("node_type", .string nodeType)]

end Event

/-- A value with the events on the way to it. -/
structure Logged (α : Type) where
  events : List Event
  value : α

namespace Logged

variable {α β : Type}

instance : Monad Logged where
  pure a := ⟨[], a⟩
  bind x f := ⟨x.events ++ (f x.value).events, (f x.value).value⟩

/-- Reports one event. -/
def report (event : Event) : Logged Unit := ⟨[event], ()⟩

@[simp] theorem value_pure (a : α) : (pure a : Logged α).value = a := rfl

@[simp] theorem value_bind (x : Logged α) (f : α → Logged β) :
    (x >>= f).value = (f x.value).value := rfl

end Logged

end SchemaBridge
