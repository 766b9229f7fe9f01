import SchemaBridge.Proofs.Compile.Agreement
import SchemaBridge.Proofs.Compile.References

/-!
# Nodes that stand in for others

A run can be compared with one in which other nodes stand in for the nodes of some calls: at such a
call the stand-in is compiled, on the same books, and everything else goes on as before. If each
stand-in comes to what the call on the node itself comes to, then so does every other call, and the
two documents are the same.

## Main definitions

* `Compile.nodeWith`, `Registry.compileWith` : the run in which some nodes are stood in for.
* `Call.Interchangeable` : stand-ins that come to what the calls come to.

## Main results

* `Call.Within.with_standIns`, `Registry.compileWith_eq` : every call, and the document.
-/

namespace SchemaBridge

open Chain Ledger Compile CompileM

variable {π : Type}

/-- A call as if nothing had been reported before. -/
def Call.silent (call : Call π) : Call π :=
  { call with books := { call.books with events := [] } }

/-- The compilation of a node where other nodes stand in for the nodes of some calls. What stands in
for a node may depend on the call, but not on what has been reported before. The stand-in is
compiled instead of the node, on the same books; the identities that the node would use up are left
out, so that the same ones are handed out later. -/
def Compile.nodeWith (context : CompileContext π) (standIn : Call π → Option (Node π)) :
    Nat → Node π → CompileM NodeSchema
  | 0, node => step context none node
  | levels + 1, node => fun s =>
    let child := nodeWith context standIn levels
    match standIn (Call.silent ⟨levels + 1, node, s⟩) with
    | none => step context (some child) node s
    | some other =>
      step context (some child) other
        { s with supply := (Call.after context ⟨levels + 1, node, s⟩).supply }

/-- The document of a node where other nodes stand in for the nodes of some calls. -/
def Registry.compileWith (registry : Registry π) (options : DocumentOptions)
    (standIn : Call π → Option (Node π)) (node : Node π) (supply : Nat) : Json :=
  let (root, books) :=
    Compile.nodeWith ⟨registry, options⟩ standIn (options.maxDepth + 1) node (Ledger.start supply)
  document options root.schema books.definitions

/-- A stand-in comes to what the call comes to that it stands in for, whatever is done for parts and
whatever has been reported before. -/
def Call.Interchangeable (context : CompileContext π) (root : Call π)
    (standIn : Call π → Option (Node π)) : Prop :=
  ∀ levels node s other, Within context root ⟨levels + 1, node, s⟩ →
    standIn (silent ⟨levels + 1, node, s⟩) = some other → ∀ child events, ∃ later,
      step context (some child) other
          { s with supply := (after context ⟨levels + 1, node, s⟩).supply, events } =
        (answer context ⟨levels + 1, node, s⟩,
          { after context ⟨levels + 1, node, s⟩ with events := later })

section

variable {registry : Registry π} {options : DocumentOptions} {root : Call π}
  {standIn : Call π → Option (Node π)}
  (interchangeable : Call.Interchangeable ⟨registry, options⟩ root standIn)
include interchangeable

/-- A call of the run agrees with the one in the run with stand-ins. -/
theorem Compile.nodeWith_agreesAt (levels : Nat) {n : Node π} {s : Ledger}
    (within : Call.Within ⟨registry, options⟩ root ⟨levels, n, s⟩) :
    AgreesAt (node ⟨registry, options⟩ levels n)
      (nodeWith ⟨registry, options⟩ standIn levels n) s := by
  induction levels generalizing n s with
  | zero => exact step_none_agreesAt options fun _ => rfl
  | succ levels ih =>
    intro events
    have chosen : nodeWith ⟨registry, options⟩ standIn (levels + 1) n { s with events } =
        match standIn (Call.silent ⟨levels + 1, n, s⟩) with
        | none =>
          step ⟨registry, options⟩ (some (nodeWith ⟨registry, options⟩ standIn levels)) n
            { s with events }
        | some other =>
          step ⟨registry, options⟩ (some (nodeWith ⟨registry, options⟩ standIn levels)) other
            { s with
              supply := (Call.after ⟨registry, options⟩ ⟨levels + 1, n, { s with events }⟩).supply
              events } := rfl
    rw [chosen]
    cases stands : standIn (Call.silent ⟨levels + 1, n, s⟩) with
    | none =>
      refine step_agreesAt options rfl (fun _ _ _ _ _ => rfl) ?_ events
      intro adapter new claims layers isOptional base baseAdapter modifier ids t shape part u peels
        shaped visits
      exact ih (within.tail (.intro new claims peels shaped visits))
    | some other =>
      -- Reports do not show in the identities that the call itself uses up.
      have agrees : AgreesAt (node ⟨registry, options⟩ (levels + 1) n)
          (node ⟨registry, options⟩ (levels + 1) n) s :=
        node_agreesAt options (levels + 1) fun _ _ _ _ => rfl
      obtain ⟨reported, same⟩ := agrees events
      obtain ⟨later, result⟩ := interchangeable levels n s other within stands
        (nodeWith ⟨registry, options⟩ standIn levels) events
      have supply : (Call.after ⟨registry, options⟩ ⟨levels + 1, n, { s with events }⟩).supply =
          (Call.after ⟨registry, options⟩ ⟨levels + 1, n, s⟩).supply :=
        congrArg (fun r => r.2.supply) same
      dsimp only
      rw [supply]
      exact ⟨later, result⟩

/-- Every call of a run comes to the same if nodes are stood in for. -/
theorem Call.Within.with_standIns {call : Call π}
    (within : Within ⟨registry, options⟩ root call) :
    ∃ events, nodeWith ⟨registry, options⟩ standIn call.levels call.node call.books =
      (call.answer ⟨registry, options⟩, { call.after ⟨registry, options⟩ with events }) :=
  nodeWith_agreesAt interchangeable call.levels within call.books.events

end

/-- The document is the same if nodes are stood in for. -/
theorem Registry.compileWith_eq {registry : Registry π} {options : DocumentOptions} {node : Node π}
    {supply : Nat} {standIn : Call π → Option (Node π)}
    (interchangeable : Call.Interchangeable ⟨registry, options⟩ (rootCall options node supply)
      standIn) :
    registry.compileWith options standIn node supply =
      (registry.compile options node supply).1.value := by
  obtain ⟨events, same⟩ := Call.Within.with_standIns interchangeable .refl
  rw [value_compile]
  exact congrArg₂ (document options) (congrArg (fun r => r.1.schema) same)
    (congrArg (fun r => r.2.definitions) same)

end SchemaBridge
