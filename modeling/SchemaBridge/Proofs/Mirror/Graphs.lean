import Mathlib.Logic.Relation
import SchemaBridge.Proofs.Mirror.Plans

/-!
# Graphs that mirror each other

Two graphs of nodes mirror each other if the nodes of one can be paired with those of the other, so
that no node has two partners, and so that the adapters of partners see the same in them and hand
out partners again. Nothing is asked of the identities. The graphs may have cycles, and they may
grow: where an adapter builds a node, the adapter of the partner builds one too, and from then on
the two are partners, whatever their identities are, as long as both are new.

The plainest case is that the identities of one graph are those of the other under new names, and
that nodes with corresponding identities hold the same. The names are chosen while the graphs grow:
when both sides build a node, the two new identities are paired, and any two will do that come after
all the others.

## Main definitions

* `Correspondence` : a pairing in which no node has two partners.
* `Registry.Mirrors` : registries that give partners to adapters that answer them in the same way.
* `Renaming`, `Correspondence.byContents` : the pairing of nodes that hold the same.

## Main results

* `Renaming.exists_built` : any two new identities can be paired.
-/

namespace SchemaBridge

variable {σ π π' : Type} [Preorder σ]

/-- A pairing in which no node has two partners. -/
structure Correspondence (σ : Type) [Preorder σ] (π π' : Type) extends Pairing σ π π' where
  sameNode_iff : ∀ {stage : σ} {a b : Node π} {a' b' : Node π'}, nodes stage a a' →
    nodes stage b b' → (a.id = b.id ↔ a'.id = b'.id)

namespace Correspondence

variable (W : Correspondence σ π π')

/-- The identities are those of partners. -/
def ids (stage : σ) : Identity → Identity → Prop := Relation.Map (W.nodes stage) Node.id Node.id

variable {W} {stage later : σ} {n : Node π} {n' : Node π'}

theorem ids_of_nodes (h : W.nodes stage n n') : W.ids stage n.id n'.id := ⟨n, n', h, rfl, rfl⟩

theorem ids_mono (le : stage ≤ later) {i i' : Identity} (h : W.ids stage i i') :
    W.ids later i i' := by
  obtain ⟨a, a', related, rfl, rfl⟩ := h
  exact ids_of_nodes (W.nodes_mono le related)

/-- The identities of partners are paired one to one. -/
theorem biUnique_ids (stage : σ) : Relator.BiUnique (W.ids stage) := by
  constructor
  · rintro _ _ _ ⟨a, a', ha, rfl, rfl⟩ ⟨b, b', hb, rfl, same⟩
    exact (W.sameNode_iff ha hb).2 same.symm
  · rintro _ _ _ ⟨a, a', ha, rfl, rfl⟩ ⟨b, b', hb, same, rfl⟩
    exact (W.sameNode_iff ha hb).1 same.symm

end Correspondence

/-- Two registries give partners to adapters that answer them in the same way, or to nobody. -/
def Registry.Mirrors (W : Correspondence σ π π') (registry : Registry π) (registry' : Registry π') :
    Prop :=
  ∀ stage n n', W.nodes stage n n' →
    Option.Rel (fun adapter adapter' => Adapter.Mirrors W.toPairing stage adapter adapter' n n')
      (registry.resolve n).value (registry'.resolve n').value

/-! ### Renamed identities -/

/-- Identities of two graphs that are paired one to one. -/
structure Renaming where
  pairs : Identity → Identity → Prop
  unique : Relator.BiUnique pairs

namespace Renaming

instance : Preorder Renaming := Preorder.lift pairs

/-- The identities that are paired have been handed out by the supplies. -/
def Below (r : Renaming) (supply supply' : Nat) : Prop :=
  ∀ i i', r.pairs i i' → i.index < supply ∧ i'.index < supply'

/-- One more pair of identities, both of them new. -/
def add (r : Renaming) (next next' : Identity)
    (new : ∀ i i', r.pairs i i' → i ≠ next ∧ i' ≠ next') : Renaming where
  pairs i i' := r.pairs i i' ∨ (i = next ∧ i' = next')
  unique := by
    constructor
    · rintro a b c (ha | ⟨rfl, rfl⟩) (hb | ⟨rfl, same⟩)
      · exact r.unique.1 ha hb
      · exact absurd same (new _ _ ha).2
      · exact absurd rfl (new _ _ hb).2
      · rfl
    · rintro a b c (hb | ⟨rfl, rfl⟩) (hc | ⟨same, rfl⟩)
      · exact r.unique.2 hb hc
      · exact absurd same (new _ _ hb).1
      · exact absurd rfl (new _ _ hc).1
      · rfl

/-- Any two identities that come after all the others can be paired. -/
theorem exists_built {r : Renaming} {supply supply' : Nat} (below : r.Below supply supply')
    {next next' : Nat} (h : supply ≤ next) (h' : supply' ≤ next') :
    ∃ later, r ≤ later ∧ later.pairs ⟨next⟩ ⟨next'⟩ ∧ later.Below (next + 1) (next' + 1) := by
  have new : ∀ i i', r.pairs i i' → i ≠ ⟨next⟩ ∧ i' ≠ ⟨next'⟩ := by
    intro i i' paired
    obtain ⟨lt, lt'⟩ := below i i' paired
    constructor
    · rintro rfl
      exact absurd lt (Nat.not_lt.2 h)
    · rintro rfl
      exact absurd lt' (Nat.not_lt.2 h')
  refine ⟨r.add ⟨next⟩ ⟨next'⟩ new, fun i i' => .inl, .inr ⟨rfl, rfl⟩, ?_⟩
  rintro i i' (paired | ⟨rfl, rfl⟩)
  · obtain ⟨lt, lt'⟩ := below i i' paired
    exact ⟨Nat.lt_succ_of_lt (Nat.lt_of_lt_of_le lt h),
      Nat.lt_succ_of_lt (Nat.lt_of_lt_of_le lt' h')⟩
  · exact ⟨Nat.lt_succ_self _, Nat.lt_succ_self _⟩

end Renaming

/-- Nodes are partners if their identities are paired and they hold the same, which may depend on
what is paired, as a node may hold handles to others. -/
def Correspondence.byContents (contents : Renaming → π → π' → Prop)
    (mono : ∀ {r later : Renaming}, r ≤ later → ∀ {p : π} {p' : π'}, contents r p p' →
      contents later p p') : Correspondence Renaming π π' where
  nodes r n n' := r.pairs n.id n'.id ∧ contents r n.payload n'.payload
  supplies := Renaming.Below
  nodes_mono le _ _ h := ⟨le _ _ h.1, mono le h.2⟩
  sameNode_iff {r} _ _ _ _ ha hb := Relator.rel_eq r.unique ha.1 hb.1

end SchemaBridge
