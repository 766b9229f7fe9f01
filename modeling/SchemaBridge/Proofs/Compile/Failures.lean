import SchemaBridge.Proofs.Compile.Runs

/-!
# Calls that fail

The chain of a node may end in an error: what is inside a layer cannot be told, there are too many
layers, or the structure of the base cannot be compiled. Then the node is given up. Of the layers
that were taken off by then only one thing is left, namely whether one of them was optional.

## Main definitions

* `Chain.hasOptional` : an optional layer has been taken off.
* `Call.Fails` : the chain of the node of a call ends in an error.
* `Call.LeavesBooks` : a call that fails leaves the books as they were.

## Main results

* `Call.Fails.comesTo` : what is known at the failure, and what the call comes to.
-/

namespace SchemaBridge

open Chain Compile Ledger

variable {π : Type}

/-- Some layer that has been taken off is optional. -/
def Chain.hasOptional (layers : List (PeeledLayer π)) : Bool :=
  layers.any fun layer => layer.modifier = .optional

/-- The base of a chain is the latest node in progress, and was not in progress before. -/
theorem Compile.Peels.active_base {context : CompileContext π} {node base : Node π}
    {adapter baseAdapter : Adapter π} {s t : Ledger} {layers : List (PeeledLayer π)}
    {isOptional : Bool} {modifier : Option Modifier} {ids : List Identity}
    (peels : Peels context node adapter s layers isOptional (.ok (.base base baseAdapter modifier))
      ids t) : ∃ old, t.active = base.id :: old ∧ base.id ∉ old := by
  obtain ⟨last, all, rfl⟩ := peels.lastEntered
  obtain ⟨supply, events, books⟩ := peels.books
  refine ⟨(layers.map (·.node.id)).reverse ++ s.active, by simp [books, all], ?_⟩
  have distinct : base.id ∉ layers.map (·.node.id) := fun mem =>
    (List.nodup_append.1 (all ▸ peels.nodup)).2.2 _ mem _ (List.mem_singleton_self _) rfl
  have fresh : base.id ∉ s.active := peels.fresh base.id (by simp [all])
  exact List.not_mem_append (fun mem => distinct (List.mem_reverse.1 mem)) fresh

namespace Call

/-- The chain of the node of a call ends in an error when some layers have been taken off: what is
inside another layer cannot be told, there are too many of them, or the structure of the base cannot
be compiled. -/
inductive Fails (context : CompileContext π) : Call π → List (PeeledLayer π) → Prop where
  | givenUp {levels : Nat} {node : Node π} {adapter : Adapter π} {s t : Ledger}
      {layers : List (PeeledLayer π)} {isOptional : Bool} {failure : CompileFailure}
      {ids : List Identity} (new : node.id ∉ s.active)
      (claims : (context.registry.resolve node).value = some adapter)
      (peels : Peels context node adapter (resolved context ⟨levels + 1, node, s⟩) layers isOptional
        (.error failure) ids t) : Fails context ⟨levels + 1, node, s⟩ layers
  | broken {levels : Nat} {node base : Node π} {adapter baseAdapter : Adapter π} {s t u : Ledger}
      {layers : List (PeeledLayer π)} {isOptional : Bool} {modifier : Option Modifier}
      {ids : List Identity} {failure : CompileFailure} (new : node.id ∉ s.active)
      (claims : (context.registry.resolve node).value = some adapter)
      (peels : Peels context node adapter (resolved context ⟨levels + 1, node, s⟩) layers isOptional
        (.ok (.base base baseAdapter modifier)) ids t)
      (runs : Structure.compile context (Compile.node context levels) base baseAdapter
        (noted base baseAdapter ids t) = (.error failure, u)) :
      Fails context ⟨levels + 1, node, s⟩ layers

/-- A call that fails gives its node up: what is known of the books at the failure, the answer, and
the books after the call. -/
theorem Fails.comesTo {context : CompileContext π} {call : Call π} {layers : List (PeeledLayer π)}
    (fails : Fails context call layers) :
    ∃ adapter isOptional stop ids failure t u,
      (context.registry.resolve call.node).value = some adapter ∧
      Peels context call.node adapter (resolved context call) layers isOptional stop ids t ∧
      call.answer context = ⟨[], isOptional, .value⟩ ∧ call.after context = lost ids failure u ∧
      (u = t ∨ ∃ levels base baseAdapter modifier, stop = .ok (.base base baseAdapter modifier) ∧
        Structure.compile context (Compile.node context levels) base baseAdapter
          (noted base baseAdapter ids t) = (.error failure, u)) := by
  cases fails with
  | @givenUp levels node adapter s t layers isOptional failure ids new claims peels =>
    have result := concludes new claims peels
    generalize answer context ⟨levels + 1, node, s⟩ = c, after context ⟨levels + 1, node, s⟩ = v
      at result ⊢
    cases result
    exact ⟨adapter, _, _, ids, failure, t, t, claims, peels, rfl, rfl, .inl rfl⟩
  | @broken levels node base adapter baseAdapter s t u layers isOptional modifier ids failure new
      claims peels runs =>
    have result := concludes new claims peels
    generalize answer context ⟨levels + 1, node, s⟩ = c, after context ⟨levels + 1, node, s⟩ = v
      at result ⊢
    cases result with
    | success atEnd =>
      cases atEnd with
      | built runs' => cases runs.symm.trans runs'
    | broken runs' =>
      obtain ⟨same, rfl⟩ := Prod.mk.inj (runs.symm.trans runs')
      obtain rfl := Except.error.inj same
      exact ⟨adapter, _, _, ids, failure, t, u, claims, peels, rfl, rfl,
        .inr ⟨levels, base, baseAdapter, modifier, rfl, runs⟩⟩

/-- A call that fails answers with the empty schema, which is optional if an optional layer has been
taken off, and leaves the books as they were, but for identities that were used up and for
reports. -/
def LeavesBooks (context : CompileContext π) (call : Call π)
    (layers : List (PeeledLayer π)) : Prop :=
  call.answer context = ⟨[], hasOptional layers, .value⟩ ∧
    ∃ supply events, call.after context = { call.books with supply, events }

end Call

end SchemaBridge
