import SchemaBridge.Proofs.Compile.Reentries

/-!
# Definitions are what was compiled

The definition of a node is the very schema that the compilation of the node answered when the node
got its name, at whatever exit it was stored: no later visit of the node and no failure of a node
around it replaces it. So a document whose root is met again below itself says the same twice, at
its root and in the definition of the root. That the root is met again is said of the run, and it is
said of the schema alone, by a walk that comes back to the root.

## Main definitions

* `Compile.Faithful` : names are one-to-one, and definitions are what was compiled.

## Main results

* `Registry.compile_faithful` : every run is faithful.
-/

namespace SchemaBridge

open Draft07 Ledger

variable {π : Type}

namespace Compile

/-- The entries of a document without those that a document adds to its root. -/
def rootEntries (document : Json) : Json.Fields :=
  (document.asObject?.getD []).filter fun entry => entry.1 ≠ "$schema" && entry.1 ≠ "$defs"

/-- In a run that ends with a document, names are one-to-one, and definitions are what was
compiled. -/
structure Faithful (context : CompileContext π) (root : Call π) (document : Json) : Prop where
  /-- No two nodes have the same name. -/
  injective : ∀ a b name, Table.get? (root.after context).names a = some name →
    Table.get? (root.after context).names b = some name → a = b
  /-- The name of a node at any moment is its name at the end. -/
  lasting : ∀ call, Call.Within context root call → ∀ id name,
    Table.get? call.books.names id = some name ∨
        Table.get? (call.after context).names id = some name →
      Table.get? (root.after context).names id = some name
  /-- A call on a node in progress answers with a reference to the name of the node. -/
  referred : ∀ call, Call.Within context root call → call.node.id ∈ call.books.active →
    ∃ name, Table.get? (root.after context).names call.node.id = some name ∧
      (call.answer context).schema = refSchema name
  /-- A node that gets its name while it is compiled is defined as what its compilation answers. -/
  defined : ∀ call, Call.Within context root call → call.node.id ∉ call.books.active → ∀ name,
    Table.get? call.books.names call.node.id = none →
      Table.get? (call.after context).names call.node.id = some name →
        Table.get? (definitions document) name = some (call.answer context).schema
  /-- A root that is met again below itself is defined as what the document says at its root. -/
  again : ∀ call, Call.Within context root call → Call.Meets context root.node.id call →
    ∃ name, Table.get? (root.after context).names root.node.id = some name ∧
      Table.get? (definitions document) name = some (rootEntries document)
  /-- So is a root that a walk through the schema comes back to, if all questions about the nodes
  that it leads to are settled and no limit is reached. -/
  reentered : (∀ other, Relation.ReflTransGen (Leads context.registry) root.node other →
      Steady context.registry other) → ¬ (root.after context).Limited →
    Reenters context.registry root.node root.node.id →
      ∃ name, Table.get? (root.after context).names root.node.id = some name ∧
        Table.get? (definitions document) name = some (rootEntries document)

end Compile

open Compile

namespace Registry

section

variable (registry : Registry π) (options : DocumentOptions) (node : Node π) (supply : Nat)
  {call : Call π} (within : Call.Within ⟨registry, options⟩ (rootCall options node supply) call)

include within

/-- What a node is compiled to when it gets its name is its definition in the end. -/
theorem definition_of_call (new : call.node.id ∉ call.books.active) {name : String}
    (unnamed : Table.get? call.books.names call.node.id = none)
    (named : Table.get? (call.after ⟨registry, options⟩).names call.node.id = some name) :
    Table.get? (definitions (registry.compile options node supply).1.value) name =
      some (call.answer ⟨registry, options⟩).schema := by
  obtain ⟨atCall, -, after⟩ := within.keeps (trusted_start _ _ supply)
  rw [registry.definitions_compile]
  exact after.definitions _ _ (Call.defines within atCall new unnamed named)

/-- A root that is met again is defined as what the document says at its root. -/
theorem definition_of_meets (meets : Call.Meets ⟨registry, options⟩ node.id call) :
    ∃ name, Table.get? (registry.books options node supply).names node.id = some name ∧
      Table.get? (definitions (registry.compile options node supply).1.value) name =
        some (rootEntries (registry.compile options node supply).1.value) := by
  obtain ⟨atCall, -, after⟩ := within.keeps (trusted_start _ _ supply)
  obtain ⟨name, named⟩ := Call.named_of_meets meets atCall
  have namedAtEnd := after.names _ _ named
  have defined := registry.definition_of_call options node supply .refl List.not_mem_nil rfl
    namedAtEnd
  obtain ⟨fields, isObject, same⟩ := root_document options
    (registry.books options node supply).definitions
    (registry.schema_root options node supply (tidy_invariant _ _))
  refine ⟨name, namedAtEnd, ?_⟩
  rw [defined, rootEntries, registry.value_compile, isObject]
  exact congrArg some same.symm

end

/-- Every run is faithful. -/
theorem compile_faithful (registry : Registry π) (options : DocumentOptions) (node : Node π)
    (supply : Nat) :
    Faithful ⟨registry, options⟩ (rootCall options node supply)
      (registry.compile options node supply).1.value where
  injective := (registry.trusted_books options node supply).injective
  lasting := by
    intro call within id name named
    obtain ⟨atCall, -, after⟩ := within.keeps (trusted_start _ _ supply)
    obtain ⟨-, during, -⟩ := Call.keeps within atCall
    rcases named with named | named
    · exact after.names id name (during.names id name named)
    · exact after.names id name named
  referred := by
    intro call within active
    obtain ⟨atCall, -, after⟩ := within.keeps (trusted_start _ _ supply)
    obtain ⟨name, named, answer⟩ := Call.answer_of_active atCall active
    exact ⟨name, after.names _ _ named, answer⟩
  defined _ within new _ := registry.definition_of_call options node supply within new
  again _ within meets := registry.definition_of_meets options node supply within meets
  reentered := by
    intro steady whole reenters
    obtain ⟨call, within, meets⟩ :=
      registry.exists_meets_of_reenters options node supply steady whole reenters
    exact registry.definition_of_meets options node supply within meets

end Registry

end SchemaBridge
