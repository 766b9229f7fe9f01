import SchemaBridge.Proofs.Compile.References
import SchemaBridge.Proofs.Plain.Simulation
import SchemaBridge.Proofs.Plain.Unfolding

/-!
# Documents of acyclic schemas

The document of an acyclic schema is that of its plain compilation. It has neither references nor
definitions, and it only depends on the unfolding of the schema: a part that is shared and a part
that is repeated cannot be told apart.

## Main results

* `Registry.compile_of_acyclic` : compilation of an acyclic schema is plain.
-/

namespace SchemaBridge

open Draft07

variable {π : Type}

namespace Registry

open Compile Ledger Plain

section

variable (registry : Registry π) (options : DocumentOptions) (node : Node π) (supply : Nat)

/-- The run on an acyclic schema agrees with the plain one, from the start to the end. -/
theorem books_agree (acyclic : Acyclic ⟨registry, options⟩ ⟨supply, node⟩) :
    Agrees (start supply) ((rootCall options node supply).answer ⟨registry, options⟩,
        registry.books options node supply)
      (Plain.node ⟨registry, options⟩ (options.maxDepth + 1) node supply) :=
  node_agrees acyclic (fun _ _ => List.not_mem_nil) (options.maxDepth + 1) ⟨supply, node⟩ []
    (start supply) (OnPath.start _ _) rfl (sound_start supply) (Nat.le_refl _)

/-- No node of an acyclic schema is named, and none is defined. -/
theorem bare_books (acyclic : Acyclic ⟨registry, options⟩ ⟨supply, node⟩) :
    (registry.books options node supply).names = [] ∧
      (registry.books options node supply).definitions = [] := by
  obtain ⟨-, ⟨events, same⟩, -⟩ := registry.books_agree options node supply acyclic
  dsimp only at same
  rw [same]
  exact ⟨rfl, rfl⟩

theorem compilePlainly_eq : registry.compilePlainly options node supply =
    (document options
      (Plain.node ⟨registry, options⟩ (options.maxDepth + 1) node supply).1.schema [],
      (Plain.node ⟨registry, options⟩ (options.maxDepth + 1) node supply).2) := rfl

/-- The document of an acyclic schema is that of its plain compilation; it has no references and no
definitions, and is the same for every other acyclic schema of the same unfolding. -/
theorem compile_of_acyclic (acyclic : Acyclic ⟨registry, options⟩ ⟨supply, node⟩) :
    ((registry.compile options node supply).1.value, (registry.compile options node supply).2) =
        registry.compilePlainly options node supply ∧
      (∀ schema, InDocument (registry.compile options node supply).1.value schema →
        schema.get? "$ref" = none) ∧
      (registry.compile options node supply).1.value.get? "$defs" = none ∧
      ∀ node' supply', Acyclic ⟨registry, options⟩ ⟨supply', node'⟩ →
        SameUnfolding registry node node' →
          (registry.compile options node' supply').1.value =
            (registry.compile options node supply).1.value := by
  have plainly (node : Node π) (supply : Nat)
      (acyclic : Acyclic ⟨registry, options⟩ ⟨supply, node⟩) :
      (registry.books options node supply).names = [] ∧
        (registry.books options node supply).definitions = [] ∧
        ((registry.compile options node supply).1.value,
          (registry.compile options node supply).2) =
            registry.compilePlainly options node supply := by
    obtain ⟨value, ⟨events, same⟩, -⟩ := registry.books_agree options node supply acyclic
    dsimp only at value same
    rw [value_compile, compile_eq, compilePlainly_eq, value, same]
    exact ⟨rfl, rfl, rfl⟩
  obtain ⟨unnamed, undefined, same⟩ := plainly node supply acyclic
  refine ⟨same, ?_, ?_, ?_⟩
  · intro schema inside
    by_contra reference
    obtain ⟨value, found⟩ := Option.ne_none_iff_exists'.1 reference
    obtain ⟨name, -, id, named⟩ := registry.reference_named options node supply inside found
    rw [unnamed] at named
    cases named
  · rw [value_compile, undefined]
    exact get?_defs_document_nil options
      (registry.schema_root options node supply (tidy_invariant _ _))
  · rintro node' supply' acyclic' ⟨nodes, respects, related⟩
    obtain ⟨-, -, same'⟩ := plainly node' supply' acyclic'
    rw [compilePlainly_eq] at same same'
    rw [(Prod.mk.inj same).1, (Prod.mk.inj same').1]
    have schemas := @node_congr π nodes node node' ⟨registry, options⟩ respects
      (options.maxDepth + 1) related supply supply'
    rw [schemas]

end

/-! ### A shared and a repeated part -/

/-- An adapter whose nodes are texts, and pairs of the node `1` and another text. -/
def pairing : Adapter (Option Nat) where
  vendor := "pairs"
  claims _ := true
  holds predicate node := predicate = .shape (if node.payload.isSome then .tuple else .string)
  positions node := pure <| node.payload.toList.flatMap fun other =>
    [⟨⟨1⟩, "text", none⟩, ⟨⟨other⟩, "text", none⟩]

/-- The registry of pairs. -/
def pairs : Registry (Option Nat) := ⟨[pairing], .firstMatch⟩

/-- A pair, in which the node `1` is shared if the other text is the node `1` again. -/
def pair (other : Nat) : Node (Option Nat) := ⟨⟨0⟩, "pair", some other⟩

private theorem modifier?_pairing (node : Node (Option Nat)) : pairing.modifier? node = none :=
  Adapter.modifier?_eq_none_iff.2 fun m => by simp [pairing]

/-- Only texts stand below a pair, and nothing stands below a text. -/
private theorem below_pairs {options : DocumentOptions} {a b : Arrival (Option Nat)}
    (h : Arrival.Below ⟨pairs, options⟩ a b) :
    ∃ other, a.node.payload = some other ∧ b.node.payload = none ∧
      (b.node.id = ⟨1⟩ ∨ b.node.id = ⟨other⟩) := by
  obtain ⟨supply, id, typeName, payload⟩ := a
  cases h with
  | inside claims wrapped =>
    obtain rfl := Option.some.inj claims
    rw [modifier?_pairing] at wrapped
    cases wrapped
  | part claims _ seen offers =>
    obtain rfl := Option.some.inj claims
    cases payload with
    | none =>
      obtain rfl := Option.some.inj seen
      cases offers
    | some other =>
      obtain rfl := Option.some.inj seen
      refine ⟨other, rfl, ?_⟩
      cases offers with
      | ask _ gives rest =>
        obtain ⟨given, rfl⟩ := Prod.mk.inj gives
        obtain rfl := Except.ok.inj given
        cases rest with
        | here => exact ⟨rfl, .inl rfl⟩
        | later _ rest =>
          cases rest with
          | here => exact ⟨rfl, .inr rfl⟩
          | later _ rest =>
            cases rest with
            | ask _ gives rest =>
              obtain ⟨given, rfl⟩ := Prod.mk.inj gives
              obtain rfl := Except.ok.inj given
              cases rest

private theorem grows_pairing (options : DocumentOptions) (node : Node (Option Nat)) {shape : Shape}
    (seen : pairing.shape? node = some shape) :
    (Structure.ofShape options node pairing shape).Grows := by
  obtain ⟨id, typeName, payload⟩ := node
  cases payload with
  | none =>
    obtain rfl := Option.some.inj seen
    trivial
  | some other =>
    obtain rfl := Option.some.inj seen
    refine Plan.grows_bind (Plan.grows_question fun _ => Nat.le_refl _) fun _ => ?_
    refine Plan.grows_bind (Plan.grows_parts _) fun _ => ?_
    refine Plan.grows_bind (Plan.grows_question fun _ => Nat.le_refl _) fun _ => ?_
    exact Plan.grows_bind (Plan.grows_part? _) fun _ => trivial

theorem pairs_acyclic (options : DocumentOptions) (supply : Nat) {other : Nat} (h : other ≠ 0) :
    Acyclic ⟨pairs, options⟩ ⟨supply, pair other⟩ := by
  constructor
  · intro a _ adapter claims
    obtain rfl := Option.some.inj claims
    exact ⟨fun _ => Nat.le_refl _, fun shape => grows_pairing options a.node⟩
  · intro a b reached further
    -- What stands below is below a pair, so the first of the two is the root.
    obtain ⟨first, step, rest⟩ := Relation.TransGen.head'_iff.1 further
    obtain ⟨given, payload, text, ids⟩ := below_pairs step
    have last : first = b := by
      rcases Relation.ReflTransGen.cases_head rest with same | ⟨c, step', _⟩
      · exact same
      · obtain ⟨_, payload', _⟩ := below_pairs step'
        rw [text] at payload'
        cases payload'
    have atRoot : a = ⟨supply, pair other⟩ := by
      rcases Relation.ReflTransGen.cases_tail reached with same | ⟨c, _, step'⟩
      · exact same
      · obtain ⟨_, _, text', _⟩ := below_pairs step'
        rw [payload] at text'
        cases text'
    subst last atRoot
    obtain rfl : other = given := Option.some.inj payload
    rcases ids with id | id
    · rw [id]
      exact fun same => nomatch congrArg Identity.index same
    · rw [id]
      exact fun same => h (congrArg Identity.index same)

/-- The texts of a pair have the same unfolding, whichever nodes they are. -/
theorem pairs_sameUnfolding (other other' : Nat) :
    SameUnfolding pairs (pair other) (pair other') := by
  refine ⟨fun a b => a.payload.isSome = b.payload.isSome, ?_, rfl⟩
  rintro ⟨id, typeName, payload⟩ ⟨id', typeName', payload'⟩ related
  refine .some ?_
  have nothing : Answer.Alike (Option.Rel fun a b : Node (Option Nat) =>
      a.payload.isSome = b.payload.isSome) (pure none) (pure none) := fun _ _ => .given .none
  have empty {γ : Type} {related : γ → γ → Prop} :
      Answer.Alike (List.Forall₂ related) (pure []) (pure []) := fun _ _ => .given .nil
  have modifiers := (modifier?_pairing ⟨id, typeName, payload⟩).trans
    (modifier?_pairing ⟨id', typeName', payload'⟩).symm
  cases payload with
  | none =>
    cases payload' with
    | some => cases related
    | none =>
      exact ⟨modifiers, rfl, rfl, rfl, rfl, rfl, rfl, rfl, rfl, rfl, rfl, nothing, empty, nothing,
        empty, empty, nothing, nothing, nothing, nothing, nothing, nothing, empty, nothing⟩
  | some =>
    cases payload' with
    | none => cases related
    | some =>
      exact ⟨modifiers, rfl, rfl, rfl, rfl, rfl, rfl, rfl, rfl, rfl, rfl, nothing, empty, nothing,
        empty, fun _ _ => .given (.cons rfl (.cons rfl .nil)), nothing, nothing, nothing, nothing,
        nothing, nothing, empty, nothing⟩

/-- A pair of one shared text compiles to the document of a pair of two texts. -/
theorem compile_shared_pair :
    ((pairs.compile {} (pair 1) 3).1.value, (pairs.compile {} (pair 1) 3).2) =
        pairs.compilePlainly {} (pair 1) 3 ∧
      (pairs.compile {} (pair 2) 3).1.value = (pairs.compile {} (pair 1) 3).1.value := by
  obtain ⟨plainly, -, -, same⟩ := pairs.compile_of_acyclic {} (pair 1) 3
    (pairs_acyclic {} 3 (by decide))
  exact ⟨plainly, same (pair 2) 3 (pairs_acyclic {} 3 (by decide)) (pairs_sameUnfolding 1 2)⟩

end Registry

end SchemaBridge
