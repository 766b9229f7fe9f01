import Mathlib.Data.List.Permutation
import SchemaBridge.Draft07.Pointer
import SchemaBridge.Options.Document
import SchemaBridge.Options.Variables
import SchemaBridge.Proofs.Compile.Naming
import SchemaBridge.Proofs.Compile.References
import SchemaBridge.Proofs.Draft07.Retargeting

/-!
# Names of definitions that need no escaping

A definition is named by the title of its node, if the title can stand in a pointer as it is, or by
the stem of the options and a number. Titles are checked and stems are not: options are read with
any stem. So the names of a document need no escaping if the stem needs none, and a validator that
reads a reference as a JSON Pointer comes to the very definition that was meant. A generated name
after a stem with a slash is cut in two instead.

## Main definitions

* `Ledger.Generated` : a name is made of a stem and a number.
* `Ledger.IsPlainStem` : a stem needs no escaping.
* `Compile.PlainlyNamed` : which names of a document need no escaping, and where references lead.

## Main results

* `Ledger.isPlainName_numbered_iff` : a generated name needs no escaping if and only if its stem
  needs none.
* `Registry.minted_books` : every name is a title that needs no escaping, or is generated.
* `Registry.compile_plainlyNamed` : every document is plainly named.
* `Registry.pointerAccepts_iff` : with a plain stem it makes no difference to what a document
  accepts whether its references are read as pointers or as names.
-/

namespace SchemaBridge

open Draft07

variable {π : Type}

namespace Ledger

/-! ### Generated names -/

/-- The name is made of a stem and a number. -/
def Generated (stem name : String) : Prop := ∃ number : Nat, name = stem ++ toString number

/-- Nothing in the stem needs escaping. -/
def IsPlainStem (stem : String) : Prop := stem = "" ∨ isPlainName stem = true

/-- The name is one that compilation can give: a title that needs no escaping, or a generated
one. -/
def Minted (options : DocumentOptions) (name : String) : Prop :=
  isPlainName name = true ∨ Generated options.defStem name

/-- A generated name needs no escaping if and only if its stem needs none. -/
theorem isPlainName_numbered_iff (stem : String) (number : Nat) :
    isPlainName (stem ++ toString number) = true ↔ IsPlainStem stem := by
  have digits : (toString number).toList = Nat.toDigits 10 number := Nat.toList_repr
  have nonempty : (stem ++ toString number).isEmpty = false := by
    rw [String.isEmpty_eq_false_iff, ne_eq, ← String.toList_eq_nil_iff,
      String.toList_append, digits]
    exact fun none => Nat.toDigits_ne_nil (List.append_eq_nil_iff.1 none).2
  have plain : ∀ c ∈ Nat.toDigits 10 number,
      (c.isAlphanum || c = '_' || c = '-' || c = '.') = true := fun c mem => by
    have digit := Nat.isDigit_of_mem_toDigits (by decide) (Nat.le_refl 10) mem
    simp [Char.isAlphanum, digit]
  rw [isPlainName, nonempty, Bool.not_false, Bool.true_and, String.toList_append, digits,
    List.all_append, List.all_eq_true.2 plain, Bool.and_true, IsPlainStem, isPlainName]
  by_cases empty : stem = ""
  · subst empty
    exact iff_of_true rfl (.inl rfl)
  · rw [String.isEmpty_eq_false_iff.2 empty, Bool.not_false, Bool.true_and, or_iff_right empty]

/-- Plain names have none of the characters that a pointer escapes. -/
theorem plain_of_isPlainName {name : String} (plain : isPlainName name = true) :
    ∀ c ∈ name.toList, c ≠ '%' ∧ c ≠ '~' ∧ c ≠ '/' := by
  intro c mem
  have isPlain := List.all_eq_true.1 (Bool.and_eq_true_iff.1 plain).2 c mem
  refine ⟨?_, ?_, ?_⟩ <;> (rintro rfl; revert isPlain; decide)

theorem generated_firstFree (stem : String) (used : List String) :
    ∀ tries counter : Nat, Generated stem (firstFree stem used tries counter).1
  | 0, counter => ⟨counter, rfl⟩
  | tries + 1, counter => by
    rw [firstFree]
    split
    · exact generated_firstFree stem used tries (counter + 1)
    · exact ⟨counter, rfl⟩

/-- A new name is a title that needs no escaping, or a generated one. -/
theorem minted_newName (context : CompileContext π) (node : Node π) (s : Ledger) :
    Minted context.options (newName context node s).1 := by
  obtain ⟨events, state, title⟩ := titleName?_apply context node s
  rw [newName, Stateful.bind_apply]
  cases found : (titleName? context node s).1 with
  | some name => exact .inl (title name found).1
  | none => exact .inr (generated_firstFree ..)

end Ledger

open Ledger

/-- A name that can be given needs no escaping, unless it is generated and the stem needs it. -/
theorem Ledger.Minted.isPlainName_iff {options : DocumentOptions} {name : String}
    (h : Minted options name) :
    isPlainName name = true ↔ (Generated options.defStem name → IsPlainStem options.defStem) := by
  constructor
  · rintro plain ⟨number, rfl⟩
    exact (isPlainName_numbered_iff ..).1 plain
  · intro plainStem
    rcases h with plain | ⟨number, rfl⟩
    · exact plain
    · exact (isPlainName_numbered_iff ..).2 (plainStem ⟨number, rfl⟩)

namespace Registry

open Compile

section

variable (registry : Registry π) (options : DocumentOptions) (node : Node π) (supply : Nat)

/-- A name of the definitions of a document is the name of a node. -/
theorem named_of_has_defs {defs : Json.Fields} {name : String}
    (isDefs : (registry.compile options node supply).1.value.get? "$defs" = some (.object defs))
    (isKey : Table.has defs name = true) :
    IsName (registry.books options node supply).names name := by
  have tidy := registry.schema_root options node supply (tidy_invariant _ _)
  have trusted := registry.trusted_books options node supply
  rw [value_compile] at isDefs
  by_cases none : (registry.books options node supply).definitions = []
  · rw [none, get?_defs_document_nil options tidy] at isDefs
    cases isDefs
  · rw [get?_defs_document options _ tidy none] at isDefs
    obtain rfl := Json.object.inj (Option.some.inj isDefs)
    rw [Table.has, Table.get?_map, Option.isSome_map] at isKey
    exact (trusted.used name).1 (trusted.defined name isKey)

/-- Every name that is given during a compilation can be given. -/
theorem minted_books {id : Identity} {name : String}
    (named : Table.get? (registry.books options node supply).names id = some name) :
    Minted options name := by
  have follow : Call.NamesFollow ⟨registry, options⟩ fun _ before after => ∀ id name,
      Table.get? after id = some name → Table.get? before id = some name ∨ Minted options name := by
    constructor
    case refl => exact fun _ _ _ _ => .inl
    case trans => exact fun first second id name named =>
      (second id name named).elim (first id name) .inr
    case spawned => exact fun _ h => h
    case referred =>
      intro call again s _ id name named
      rcases names_refer_eq ⟨registry, options⟩ again s with same | put
      · exact .inl (same ▸ named)
      · rw [put, Table.get?_put] at named
        split at named
        · exact .inr (Option.some.inj named ▸ minted_newName _ again s)
        · exact .inl named
  exact (Call.names_follow follow .refl (trusted_start _ _ supply) id name named).resolve_left nofun

end

end Registry

/-- Which names of a document need no escaping, and where its references lead a validator. -/
structure Compile.PlainlyNamed (options : DocumentOptions) (document : Json) : Prop where
  /-- A name of a definition needs no escaping, unless it is generated and the stem needs it. -/
  names : ∀ defs name, document.get? "$defs" = some (.object defs) → Table.has defs name = true →
    (isPlainName name = true ↔ (Generated options.defStem name → IsPlainStem options.defStem))
  /-- A reference to a name that needs no escaping leads to the definition of that name. -/
  references : ∀ schema value, InDocument document schema → schema.get? "$ref" = some value →
    ∃ name defs definition, value = .string (pointer name) ∧
      document.get? "$defs" = some (.object defs) ∧
      Table.get? defs name = some (.object definition) ∧
      (isPlainName name = true → resolve? document (pointer name) = some (.object definition))

namespace Registry

open Compile

/-- Every document is plainly named. -/
theorem compile_plainlyNamed (registry : Registry π) (options : DocumentOptions) (node : Node π)
    (supply : Nat) : PlainlyNamed options (registry.compile options node supply).1.value where
  names defs name isDefs isKey := by
    obtain ⟨id, named⟩ := registry.named_of_has_defs options node supply isDefs isKey
    exact (registry.minted_books options node supply named).isPlainName_iff
  references schema value inside isRef := by
    obtain ⟨name, isPointer, isName⟩ :=
      registry.reference_named options node supply inside isRef
    obtain ⟨defs, definition, -, isDefs, defined⟩ :=
      registry.definition_of_named options node supply isName
    refine ⟨name, defs, definition, isPointer, isDefs, defined, fun plain => ?_⟩
    rw [resolve?_pointer isDefs (plain_of_isPlainName plain), defined]

/-- Every name in the books at the end needs no escaping if the stem needs none. -/
theorem isPlainName_of_isName (registry : Registry π) (options : DocumentOptions) (node : Node π)
    (supply : Nat) (plainStem : IsPlainStem options.defStem) {name : String}
    (isName : IsName (registry.books options node supply).names name) :
    isPlainName name = true := by
  obtain ⟨id, named⟩ := isName
  exact (registry.minted_books options node supply named).isPlainName_iff.2 fun _ => plainStem

/-- If the stem of the names needs no escaping, a document whose references are read as pointers
accepts what it accepts when they are read as names. -/
theorem pointerAccepts_iff (registry : Registry π) (options : DocumentOptions) (node : Node π)
    (supply : Nat) (plainStem : IsPlainStem options.defStem) {data : Json} :
    PointerAccepts (registry.compile options node supply).1.value data ↔
      DocumentAccepts (registry.compile options node supply).1.value data := by
  have kept := closed_invariant ⟨registry, options⟩ (registry.books options node supply).names
  -- Both ways a reference to the name of a node stands for what the books say it is defined as.
  have target {name : String} (isName : IsName (registry.books options node supply).names name) :
      ∃ definition, resolved (registry.compile options node supply).1.value (pointer name) =
          some definition ∧
        named (definitions (registry.compile options node supply).1.value) (pointer name) =
          some definition ∧
        Closed (IsName (registry.books options node supply).names) (.object definition) := by
    obtain ⟨defs, definition, found, isDefs, defined⟩ :=
      registry.definition_of_named options node supply isName
    have plain := registry.isPlainName_of_isName options node supply plainStem isName
    refine ⟨definition, ?_, ?_,
      closed_of_entries (registry.schema_definition options node supply kept found)⟩
    · rw [resolved, resolve?_pointer isDefs (plain_of_isPlainName plain), defined]
      rfl
    · rw [named_pointer, registry.definitions_compile options node supply, found]
  have closed := closed_document options (registry.books options node supply).definitions
    (registry.schema_root options node supply kept)
  rw [← registry.value_compile options node supply] at closed
  constructor
  all_goals
    rintro ⟨root, isRoot, accepted⟩
    rw [isRoot] at closed
    refine ⟨root, isRoot, accepted.retarget (fun name _ isName isTarget => ?_) closed⟩
    obtain ⟨definition, atPlace, byName, inside⟩ := target isName
  · obtain rfl := Option.some.inj (atPlace.symm.trans isTarget)
    exact ⟨byName, inside⟩
  · obtain rfl := Option.some.inj (byName.symm.trans isTarget)
    exact ⟨atPlace, inside⟩

/-- The options with a slash in the stem. -/
def slashed : DocumentOptions := { defStem := "a/b" }

/-- A list of itself that has no title. -/
def untitledList : Registry Unit where
  adapters := [{
    vendor := "list"
    claims := fun _ => true
    holds := fun predicate _ => predicate = .shape .array
    element := fun node => pure (some node) }]
  policy := .firstMatch

/-- The document of a list of itself, named after a stem with a slash. -/
def slashedDocument : Json := (untitledList.compile slashed ⟨⟨0⟩, "list", ()⟩ 1).1.value

/-- A stem with a slash is read from either source, the name made of it needs escaping, and the
reference to the name leads nowhere. -/
theorem slashedDocument_misled :
    DocumentOptions.ofJsonText "\x7b\"def_prefix\":\"a/b\"\x7d" = .ok slashed ∧
      DocumentOptions.ofVariables
        (fun name => if name = Variables.defStem then some "a/b" else none) = .ok slashed ∧
      InDocument slashedDocument (.object [("$ref", .string (pointer "a/b0"))]) ∧
      (∃ defs, slashedDocument.get? "$defs" = some (.object defs) ∧ Table.has defs "a/b0" = true) ∧
      isPlainName "a/b0" = false ∧ resolve? slashedDocument (pointer "a/b0") = none := by
  have items : parts slashedDocument = [.object [("$ref", .string (pointer "a/b0"))]] := rfl
  have inside : Inside slashedDocument (.object [("$ref", .string (pointer "a/b0"))]) :=
    .step (items ▸ List.mem_singleton_self _) (.refl _)
  have text : (pointer "a/b0").toList = '#' :: "/$defs/a/b0".toList := rfl
  refine ⟨by cbv, rfl, .inl inside, ⟨_, rfl, rfl⟩, rfl, ?_⟩
  rw [resolve?_of_notMem text (by decide)]
  rfl

end Registry

end SchemaBridge
