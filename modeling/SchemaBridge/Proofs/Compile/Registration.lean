import SchemaBridge.Proofs.Compile.Agreement
import SchemaBridge.Proofs.Compile.References
import SchemaBridge.Validation.Run

/-!
# Registering more adapters

An adapter that is registered later only takes nodes that nobody claimed. So a run that only looks
at claimed nodes does the same over the larger registry, step by step: each node is given to the
same adapter, for its compilation, inside its layers and when it gets a name. All that may change
are the reports of nodes that several adapters claim.

## Main definitions

* `Registry.Keeps` : every node that is claimed in one registry has the same adapter in another one.

## Main results

* `Registry.compile_registerAll` : documents and validation results over a larger registry.
-/

namespace SchemaBridge

open CompileM Ledger Compile

variable {π : Type}

/-- Every node that is claimed in a registry has the same adapter in another one. -/
def Registry.Keeps (registry larger : Registry π) : Prop :=
  ∀ node adapter, (registry.resolve node).value = some adapter →
    (larger.resolve node).value = some adapter

namespace Registry

section

variable {registry larger : Registry π} (keeps : registry.Keeps larger)
include keeps

/-- A claimed node has the same adapter in a registry that keeps the adapters of nodes. -/
theorem Keeps.shares {node : Node π} (claimed : (registry.resolve node).value.isSome) :
    registry.Shares larger node := by
  obtain ⟨adapter, claims⟩ := Option.isSome_iff_exists.1 claimed
  exact (keeps node adapter claims).trans claims.symm

/-- Validation against a claimed node is left to the same validator. -/
theorem value_validateWith (run : Adapter π → Node π → Json → Verdict) {node : Node π}
    (claimed : (registry.resolve node).value.isSome) (data : Json) :
    (validateWith run larger node data).value = (validateWith run registry node data).value := by
  obtain ⟨adapter, claims⟩ := Option.isSome_iff_exists.1 claimed
  simp only [validateWith, Logged.value_bind, claims, keeps node adapter claims]

end

theorem value_registerAll (registry : Registry π) (more : List (Adapter π)) :
    (registry.registerAll more).value =
      { registry with adapters := registry.adapters ++ more } := by
  induction more generalizing registry with
  | nil => simp [registerAll]
  | cons adapter rest ih => simp [registerAll, register, ih]

/-- A registry with more adapters keeps the adapters of nodes, under any policy. -/
theorem keeps_registerAll (registry : Registry π) (more : List (Adapter π)) (policy : ClaimPolicy) :
    registry.Keeps ((registry.registerAll more).value.under policy) := by
  intro node adapter claims
  rw [value_resolve] at claims ⊢
  rw [value_registerAll, under, List.find?_append, claims]
  rfl

/-- Every node that a compilation looks at is claimed. -/
def ClaimsAll (registry : Registry π) (options : DocumentOptions) (node : Node π) (supply : Nat) :
    Prop :=
  ∀ call, Call.Within ⟨registry, options⟩ (rootCall options node supply) call →
    ∀ other, call.LooksAt ⟨registry, options⟩ other → (registry.resolve other).value.isSome

/-- Adapters that are registered later do not change the document of a node, if every node that its
compilation looks at was claimed before, nor the validation against a node that was claimed before.
The policies do not matter. -/
theorem compile_registerAll (registry : Registry π) (more : List (Adapter π)) (policy : ClaimPolicy)
    (options : DocumentOptions) (node : Node π) (supply : Nat) :
    (registry.ClaimsAll options node supply →
      (((registry.registerAll more).value.under policy).compile options node supply).1.value =
        (registry.compile options node supply).1.value) ∧
    ((registry.resolve node).value.isSome → ∀ data,
      (((registry.registerAll more).value.under policy).validate node data).value =
          (registry.validate node data).value ∧
        (((registry.registerAll more).value.under policy).asyncValidate node data).value =
          (registry.asyncValidate node data).value) := by
  have keeps := registry.keeps_registerAll more policy
  constructor
  · intro claimed
    obtain ⟨later, same⟩ := node_agreesAt options (options.maxDepth + 1)
      (fun call within other looksAt => keeps.shares (claimed call within other looksAt)) []
    have answer := congrArg (fun r => r.1.schema) same
    have definitions := congrArg (fun r => r.2.definitions) same
    exact congrArg₂ (document options) answer definitions
  · intro claimed data
    exact ⟨value_validateWith keeps Adapter.validate claimed data,
      value_validateWith keeps Adapter.asyncValidate claimed data⟩

/-- An adapter that claims every node and sees texts in all of them. -/
def anyText : Adapter Unit where
  vendor := "text"
  claims _ := true
  holds predicate _ := predicate = .shape .string
  validate _ _ := pure (.ok .accepted)

/-- A list of itself stays one when an adapter is registered that sees a text in it. -/
theorem selfList_registerAll :
    selfList.ClaimsAll {} ⟨⟨0⟩, "list", ()⟩ 1 ∧
      (((selfList.registerAll [anyText]).value.under .warnOnAmbiguity).compile {}
        ⟨⟨0⟩, "list", ()⟩ 1).1.value = selfListDocument ∧
      (((selfList.registerAll [anyText]).value.under .warnOnAmbiguity).validate
        ⟨⟨0⟩, "list", ()⟩ .null).value = (selfList.validate ⟨⟨0⟩, "list", ()⟩ .null).value := by
  have claimed : selfList.ClaimsAll {} ⟨⟨0⟩, "list", ()⟩ 1 := fun _ _ _ _ => rfl
  obtain ⟨documents, validations⟩ :=
    compile_registerAll selfList [anyText] .warnOnAmbiguity {} ⟨⟨0⟩, "list", ()⟩ 1
  exact ⟨claimed, documents claimed, (validations rfl .null).1⟩

end Registry

end SchemaBridge
