import SchemaBridge.Proofs.Compile.Runs
import SchemaBridge.Proofs.Compile.Vocabulary
import SchemaBridge.Proofs.Draft07.Closure

/-!
# References are defined

A compiled schema only refers to names that nodes have. When a document is complete no node is in
progress any more, so every name has a definition: whatever a registry answers, and whether a node
that is referred to was compiled, given up, or met again inside its own chain, the references of its
document point into its definitions.

## Main results

* `Compile.closed_invariant` : compiled schemas refer to names of nodes.
* `Registry.reference_defined` : every reference of a document has a definition.
-/

namespace SchemaBridge

open Draft07

variable {π : Type}

namespace Compile

/-- Some node has the name. -/
def IsName (names : Table Identity String) (name : String) : Prop :=
  ∃ id, Table.get? names id = some name

variable {names : Table Identity String}

private theorem closed_refSchema {id : Identity} {name : String}
    (named : Table.get? names id = some name) :
    ClosedEntries (IsName names) (Ledger.refSchema name) :=
  closedEntries_singleton ⟨fun _ => ⟨name, rfl, id, named⟩, fun part mem => by
    rw [keywordParts_eq_nil (by decide)] at mem
    cases mem⟩

/-- Compiled schemas refer to names of nodes. -/
theorem closed_invariant (context : CompileContext π) (names : Table Identity String) :
    SchemaInvariant context names (ClosedEntries (IsName names)) where
  empty := closedEntries_nil
  reference _ _ := closed_refSchema
  structured _ _ _ _ := Structure.closed_of_yields
  layered _ := Assembly.closed_schema

/-- A document adds no references to those of its root. -/
theorem closed_document {known : String → Prop} (options : DocumentOptions) {root : Json.Fields}
    (defs : Table String Json.Fields) (h : ClosedEntries known root) :
    Closed known (document options root defs) := by
  have body : ClosedEntries known (root.foldl (fun t entry => Table.put t entry.1 entry.2)
      (options.schemaUri.toList.map fun uri => ("$schema", .string uri))) := by
    intro entry mem
    rcases Table.mem_of_mem_foldl_put mem with mem | mem
    · obtain ⟨uri, -, rfl⟩ := List.mem_map.1 mem
      exact .of_inert (by simp) (by simp [applicators])
    · exact h entry mem
  unfold document
  refine closed_of_entries ?_
  split
  · exact body
  · exact closedEntries_put body (.of_inert (by decide) (by decide))

end Compile

namespace Registry

open Compile Ledger

/-- The call that compiles a document. -/
def rootCall (options : DocumentOptions) (node : Node π) (supply : Nat) : Call π :=
  ⟨options.maxDepth + 1, node, start supply⟩

/-- The books at the end of a compilation. -/
def books (registry : Registry π) (options : DocumentOptions) (node : Node π) (supply : Nat) :
    Ledger :=
  (rootCall options node supply).after ⟨registry, options⟩

section

variable (registry : Registry π) (options : DocumentOptions) (node : Node π) (supply : Nat)

theorem compile_eq : registry.compile options node supply =
    (⟨(registry.books options node supply).events.reverse,
      document options ((rootCall options node supply).answer ⟨registry, options⟩).schema
        (registry.books options node supply).definitions⟩,
      (registry.books options node supply).supply) := rfl

theorem value_compile : (registry.compile options node supply).1.value =
    document options ((rootCall options node supply).answer ⟨registry, options⟩).schema
      (registry.books options node supply).definitions := rfl

/-- The books of a run that reports no limit have reached none. -/
theorem not_limited (unlimited : ∀ event ∈ (registry.compile options node supply).1.events,
    event.reachesLimit = false) : ¬ (registry.books options node supply).Limited := by
  rintro ⟨event, mem, reaches⟩
  rw [unlimited event (List.mem_reverse.2 mem)] at reaches
  cases reaches

/-- At the end the books are sound. -/
theorem trusted_books : Trusted ⟨registry, options⟩ (rootCall options node supply)
    (registry.books options node supply) :=
  (Call.keeps .refl (trusted_start _ _ supply)).1

/-- At the end no node is in progress. -/
theorem active_books : (registry.books options node supply).active = [] :=
  (Call.keeps .refl (trusted_start _ _ supply)).2.1.active

/-- What a call answers, by the names at the end. -/
theorem answers_books {call : Call π}
    (h : Call.Within ⟨registry, options⟩ (rootCall options node supply) call) :
    call.Answers ⟨registry, options⟩ (registry.books options node supply) :=
  h.answers (trusted_start _ _ supply)

/-- What compilation keeps holds of the root schema of a document. -/
theorem schema_root {P : Json.Fields → Prop} (kept : SchemaInvariant ⟨registry, options⟩
    (registry.books options node supply).names P) :
    P ((rootCall options node supply).answer ⟨registry, options⟩).schema :=
  Call.schema_answer kept fun _ => registry.answers_books options node supply

/-- What compilation keeps holds of the definitions of a document. -/
theorem schema_definition {P : Json.Fields → Prop} (kept : SchemaInvariant ⟨registry, options⟩
    (registry.books options node supply).names P) {name : String} {schema : Json.Fields}
    (defined : Table.get? (registry.books options node supply).definitions name = some schema) :
    P schema := by
  rcases (registry.trusted_books options node supply).explained name schema defined with
    rfl | ⟨call, inner, c, within, -, -, makes, rfl⟩
  · exact kept.empty
  · exact Call.schema_of_makes kept
      (fun other h => registry.answers_books options node supply (within.trans h)) makes

/-- At the end every node that has a name has a definition. -/
theorem defined_of_named {id : Identity} {name : String}
    (named : Table.get? (registry.books options node supply).names id = some name) :
    Table.has (registry.books options node supply).definitions name = true := by
  refine ((registry.trusted_books options node supply).settled id name named).resolve_left ?_
  rw [registry.active_books options node supply]
  exact List.not_mem_nil

/-- The definitions of a document are those in the books at the end. -/
theorem definitions_compile :
    definitions (registry.compile options node supply).1.value =
      (registry.books options node supply).definitions :=
  definitions_document options _ (registry.schema_root options node supply (tidy_invariant _ _))

/-- Every reference of a document is a pointer to the name of a node. -/
theorem reference_named {schema value : Json}
    (inside : InDocument (registry.compile options node supply).1.value schema)
    (reference : schema.get? "$ref" = some value) :
    ∃ name, value = .string (pointer name) ∧
      IsName (registry.books options node supply).names name := by
  have kept := closed_invariant ⟨registry, options⟩ (registry.books options node supply).names
  rcases inside with inRoot | ⟨name, definition, mem, inDefinition⟩
  · have closed := registry.schema_root options node supply kept
    exact closed_document options _ closed schema value inRoot reference
  · rw [definitions_compile] at mem
    have found := Table.get?_of_mem (registry.trusted_books options node supply).distinct mem
    have closed := registry.schema_definition options node supply kept found
    exact closed_of_entries closed schema value inDefinition reference

/-- A document has the definitions that are in the books at the end of the names of nodes. -/
theorem definition_of_named {name : String}
    (isName : IsName (registry.books options node supply).names name) : ∃ defs definition,
      Table.get? (registry.books options node supply).definitions name = some definition ∧
      (registry.compile options node supply).1.value.get? "$defs" = some (.object defs) ∧
      Table.get? defs name = some (.object definition) := by
  obtain ⟨id, named⟩ := isName
  obtain ⟨definition, found⟩ :=
    Option.isSome_iff_exists.1 (registry.defined_of_named options node supply named)
  have nonempty : (registry.books options node supply).definitions ≠ [] := by
    intro none
    rw [none] at found
    cases found
  rw [value_compile, get?_defs_document options _
    (registry.schema_root options node supply (tidy_invariant _ _)) nonempty]
  refine ⟨_, definition, found, rfl, ?_⟩
  rw [Table.get?_map, found]
  rfl

/-- Every reference of a document points to one of its definitions. -/
theorem reference_defined {schema value : Json}
    (inside : InDocument (registry.compile options node supply).1.value schema)
    (reference : schema.get? "$ref" = some value) :
    ∃ name defs definition, value = .string (pointer name) ∧
      (registry.compile options node supply).1.value.get? "$defs" = some (.object defs) ∧
      Table.get? defs name = some (.object definition) := by
  obtain ⟨name, isPointer, isName⟩ :=
    registry.reference_named options node supply inside reference
  obtain ⟨defs, definition, -, isDefs, defined⟩ :=
    registry.definition_of_named options node supply isName
  exact ⟨name, defs, definition, isPointer, isDefs, defined⟩

end

/-! ### A list of itself -/

/-- An adapter whose nodes are lists of themselves. -/
def selfList : Registry Unit where
  adapters := [{
    vendor := "list"
    claims := fun _ => true
    holds := fun predicate _ => predicate = .shape .array
    element := fun node => pure (some node)
    title := fun _ => some "List" }]
  policy := .firstMatch

/-- The document of a list of itself. -/
def selfListDocument : Json := (selfList.compile {} ⟨⟨0⟩, "list", ()⟩ 1).1.value

/-- The items of a list of itself are a reference to the list, which is defined. -/
theorem selfList_reference_defined :
    Inside selfListDocument (.object [("$ref", .string (pointer "List"))]) ∧
      ∃ name defs definition, Json.string (pointer "List") = .string (pointer name) ∧
        selfListDocument.get? "$defs" = some (.object defs) ∧
        Table.get? defs name = some (.object definition) := by
  have items : parts selfListDocument = [.object [("$ref", .string (pointer "List"))]] := rfl
  have inside : Inside selfListDocument (.object [("$ref", .string (pointer "List"))]) :=
    .step (items ▸ List.mem_singleton_self _) (.refl _)
  exact ⟨inside, reference_defined selfList {} ⟨⟨0⟩, "list", ()⟩ 1 (.inl inside) rfl⟩

end Registry

end SchemaBridge
