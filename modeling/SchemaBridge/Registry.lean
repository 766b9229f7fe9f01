import SchemaBridge.Adapter.Basic

/-!
# Registries

A registry is an ordered list of adapters. A node belongs to the first adapter that claims it: the
order of registration decides, and nothing else does. The policy only decides whether further
claims are reported.

## Main definitions

* `Registry` : the adapters and the policy.
* `Registry.register` : appends an adapter.
* `Registry.resolve` : the adapter of a node.

## Main results

* `Registry.value_resolve` : under any policy, the adapter of a node is the first one that claims
  it.
-/

namespace SchemaBridge

/-- An ordered list of adapters, with a policy for nodes that several of them claim. -/
structure Registry (π : Type) where
  adapters : List (Adapter π)
  policy : ClaimPolicy

namespace Registry

variable {π : Type}

/-- The registry without adapters. -/
def empty : Registry π := ⟨[], .firstMatch⟩

/-- The number of adapters. -/
def size (registry : Registry π) : Nat := registry.adapters.length

/-- There is no adapter. -/
def isEmpty (registry : Registry π) : Bool := registry.adapters.isEmpty

/-- The names of the vendors, in the order of registration. -/
def vendors (registry : Registry π) : List String := registry.adapters.map (·.vendor)

/-- Appends an adapter. -/
def register (registry : Registry π) (adapter : Adapter π) : Logged (Registry π) := do
  Logged.report (.registered adapter.vendor registry.size)
  return { registry with adapters := registry.adapters ++ [adapter] }

/-- The registry with several adapters appended. -/
def registerAll (registry : Registry π) : List (Adapter π) → Logged (Registry π)
  | [] => pure registry
  | adapter :: rest => do
    let registry ← registry.register adapter
    registry.registerAll rest

/-- The registry with another policy. -/
def under (registry : Registry π) (policy : ClaimPolicy) : Registry π :=
  { registry with policy }

/-- The first adapter that claims a node, and the adapters after it. -/
def firstClaim? (node : Node π) : List (Adapter π) → Option (Adapter π × List (Adapter π))
  | [] => none
  | adapter :: rest => if adapter.claims node then some (adapter, rest) else firstClaim? node rest

/-- The names of those adapters that claim a node. -/
def claimants (node : Node π) (adapters : List (Adapter π)) : List String :=
  (adapters.filter fun a => a.claims node).map (·.vendor)

/-- The adapter of a node: the first one that claims it. Under `warnOnAmbiguity` the other claimants
are reported. -/
def resolve (registry : Registry π) (node : Node π) : Logged (Option (Adapter π)) :=
  match firstClaim? node registry.adapters with
  | none => pure none
  | some (adapter, rest) =>
    let others := if registry.policy = .warnOnAmbiguity then claimants node rest else []
    if others.isEmpty then pure (some adapter)
    else do
      Logged.report (.ambiguous adapter.vendor others node.typeName)
      return some adapter

/-- The names of all vendors that claim a node, in the order of registration. -/
def allClaimants (registry : Registry π) (node : Node π) : List String :=
  claimants node registry.adapters

/-- The text that shows a registry in diagnostics. -/
def display (registry : Registry π) : String :=
  "AdapterRegistry \x7b vendors: " ++ Quoted.list registry.vendors ++ ", policy: " ++
    registry.policy.title ++ " \x7d"

/-! ### First match -/

theorem firstClaim?_map_fst (node : Node π) (adapters : List (Adapter π)) :
    (firstClaim? node adapters).map Prod.fst = adapters.find? fun a => a.claims node := by
  induction adapters with
  | nil => rfl
  | cons a rest ih => cases h : a.claims node <;> simp [firstClaim?, h, ih]

/-- The adapter of a node is the first one that claims it, under any policy. -/
theorem value_resolve (registry : Registry π) (node : Node π) :
    (registry.resolve node).value = registry.adapters.find? fun a => a.claims node := by
  rw [← firstClaim?_map_fst, resolve]
  split
  · rename_i h; simp [h]
  · rename_i adapter rest h
    rw [h]
    dsimp only
    split
    · split <;> rfl
    · rfl

end Registry

end SchemaBridge
