import SchemaBridge.Proofs.Mirror.Graphs

/-!
# Books that mirror each other

The books of two compilations mirror each other if they say the same about partners: partners are in
progress, stand under the same name and in the same bounds family, in the same order. The names in
use, the definitions and the number of the next name are the same. What a compilation does with its
books keeps this, since it only ever asks whether two identities are equal.

## Main definitions

* `Table.Mirrors`, `Ledger.Mirrors` : tables and books that say the same about partners.
* `CompileM.Mirrors` : computations that keep books mirroring each other.

## Main results

* `Ledger.ask_mirrors`, `Ledger.resolve_mirrors` : questions to adapters and registries.
* `Ledger.refer_mirrors` : partners in progress are referred to in the same way, by the same name.
* `Ledger.complete_mirrors`, `Ledger.abandon_mirrors` : they get the same definitions.
-/

namespace SchemaBridge

variable {σ π π' : Type} [Preorder σ] {α α' β β' : Type}

/-! ### Tables -/

namespace Table

/-- Two tables have the same values under paired keys, in the same order. -/
def Mirrors (pairs : α → α' → Prop) (t : Table α β) (t' : Table α' β) : Prop :=
  List.Forall₂ (fun entry entry' => pairs entry.1 entry'.1 ∧ entry.2 = entry'.2) t t'

variable {pairs : α → α' → Prop} {t : Table α β} {t' : Table α' β}

theorem Mirrors.mono {more : α → α' → Prop} (h : Mirrors pairs t t')
    (weaken : ∀ a a', pairs a a' → more a a') : Mirrors more t t' :=
  h.imp fun _ _ same => ⟨weaken _ _ same.1, same.2⟩

variable [DecidableEq α] [DecidableEq α'] {k : α} {k' : α'}

theorem Mirrors.get?_eq (h : Mirrors pairs t t') (unique : Relator.BiUnique pairs)
    (paired : pairs k k') : get? t k = get? t' k' := by
  induction h with
  | nil => rfl
  | @cons entry entry' _ _ same _ ih =>
    obtain ⟨a, b⟩ := entry
    obtain ⟨a', b'⟩ := entry'
    obtain ⟨keys, rfl⟩ := same
    simp only [get?_cons, ih, Relator.rel_eq unique keys paired]

theorem Mirrors.put (h : Mirrors pairs t t') (unique : Relator.BiUnique pairs) (paired : pairs k k')
    (v : β) : Mirrors pairs (put t k v) (put t' k' v) := by
  induction h with
  | nil => exact .cons ⟨paired, rfl⟩ .nil
  | @cons entry entry' _ _ same others ih =>
    obtain ⟨a, b⟩ := entry
    obtain ⟨a', b'⟩ := entry'
    obtain ⟨keys, rfl⟩ := same
    have agree := Relator.rel_eq unique keys paired
    rw [Table.put, Table.put]
    by_cases found : a = k
    · rw [if_pos found, if_pos (agree.1 found)]
      exact .cons ⟨keys, rfl⟩ others
    · rw [if_neg found, if_neg (mt agree.2 found)]
      exact .cons ⟨keys, rfl⟩ ih

theorem Mirrors.foldl_put {keys : List α} {keys' : List α'} (h : Mirrors pairs t t')
    (unique : Relator.BiUnique pairs) (paired : List.Forall₂ pairs keys keys') (v : β) :
    Mirrors pairs (keys.foldl (fun t k => Table.put t k v) t)
      (keys'.foldl (fun t k => Table.put t k v) t') := by
  induction paired generalizing t t' with
  | nil => exact h
  | cons first _ ih => exact ih (h.put unique first v)

end Table

/-! ### Books -/

/-- The books of two compilations say the same about partners. The reports may differ, as they name
vendors and types. -/
structure Ledger.Mirrors (W : Correspondence σ π π') (stage : σ) (s s' : Ledger) : Prop where
  active : List.Forall₂ (W.ids stage) s.active s'.active
  names : Table.Mirrors (W.ids stage) s.names s'.names
  families : Table.Mirrors (W.ids stage) s.families s'.families
  used : s.used = s'.used
  definitions : s.definitions = s'.definitions
  nextNumber : s.nextNumber = s'.nextNumber
  supply : W.supplies stage s.supply s'.supply

/-- What two compilations are given is the same, up to the registries. -/
structure CompileContext.Mirrors (W : Correspondence σ π π') (context : CompileContext π)
    (context' : CompileContext π') : Prop where
  registry : Registry.Mirrors W context.registry context'.registry
  options : context.options = context'.options

namespace CompileM

/-- Two computations keep books mirroring each other from a stage on, and answer with values that
are related at the stage which they reach. -/
def Mirrors (W : Correspondence σ π π') (stage : σ) (related : σ → α → α' → Prop) (x : CompileM α)
    (x' : CompileM α') : Prop :=
  ∀ now, stage ≤ now → ∀ s s', Ledger.Mirrors W now s s' → ∃ later, now ≤ later ∧
    related later (x s).1 (x' s').1 ∧ Ledger.Mirrors W later (x s).2 (x' s').2

variable {W : Correspondence σ π π'} {stage : σ} {first : σ → α → α' → Prop}
  {second : σ → β → β' → Prop}

/-- Computations that build no nodes stay at the stage. -/
theorem Mirrors.of_apply {x : CompileM α} {x' : CompileM α'}
    (h : ∀ now, stage ≤ now → ∀ s s', Ledger.Mirrors W now s s' →
      first now (x s).1 (x' s').1 ∧ Ledger.Mirrors W now (x s).2 (x' s').2) :
    Mirrors W stage first x x' :=
  fun now le s s' books => ⟨now, le_rfl, h now le s s' books⟩

theorem pure_mirrors {a : α} {a' : α'} (h : ∀ later, stage ≤ later → first later a a') :
    Mirrors W stage first (pure a) (pure a') :=
  .of_apply fun now le _ _ books => ⟨h now le, books⟩

theorem Mirrors.bind {x : CompileM α} {x' : CompileM α'} {f : α → CompileM β}
    {f' : α' → CompileM β'} (h : Mirrors W stage first x x')
    (rest : ∀ later, stage ≤ later → ∀ a a', first later a a' →
      Mirrors W later second (f a) (f' a')) : Mirrors W stage second (x >>= f) (x' >>= f') := by
  intro now le s s' books
  obtain ⟨later, from_now, related, between⟩ := h now le s s' books
  obtain ⟨last, from_later, result, after⟩ :=
    rest later (le.trans from_now) _ _ related later le_rfl _ _ between
  exact ⟨last, from_now.trans from_later, result, after⟩

theorem get_mirrors :
    Mirrors W stage (Ledger.Mirrors W) (get : CompileM Ledger) (get : CompileM Ledger) :=
  .of_apply fun _ _ _ _ books => ⟨books, books⟩

/-! ### Attempts -/

/-- Two attempts on mirrored books both fail, or both come to values that are related. -/
def MirrorsAttempt (W : Correspondence σ π π') (stage : σ) (related : σ → α → α' → Prop)
    (x : ExceptT CompileFailure CompileM α) (x' : ExceptT CompileFailure CompileM α') : Prop :=
  Mirrors W stage (fun later => Concur (related later)) x.run x'.run

theorem lift_mirrors {x : CompileM α} {x' : CompileM α'} (h : Mirrors W stage first x x') :
    MirrorsAttempt W stage first (ExceptT.lift x) (ExceptT.lift x') := by
  intro now le s s' books
  obtain ⟨later, from_now, related, after⟩ := h now le s s' books
  exact ⟨later, from_now, .given related, after⟩

theorem throw_mirrors (failure failure' : CompileFailure) :
    MirrorsAttempt W stage first (throw failure) (throw failure') :=
  .of_apply fun _ _ _ _ books => ⟨.failed _ _, books⟩

theorem MirrorsAttempt.pure {a : α} {a' : α'} (h : ∀ later, stage ≤ later → first later a a') :
    MirrorsAttempt W stage first (Pure.pure a) (Pure.pure a') :=
  pure_mirrors fun later le => .given (h later le)

theorem MirrorsAttempt.bind {x : ExceptT CompileFailure CompileM α}
    {x' : ExceptT CompileFailure CompileM α'} {f : α → ExceptT CompileFailure CompileM β}
    {f' : α' → ExceptT CompileFailure CompileM β'} (h : MirrorsAttempt W stage first x x')
    (rest : ∀ later, stage ≤ later → ∀ a a', first later a a' →
      MirrorsAttempt W later second (f a) (f' a')) :
    MirrorsAttempt W stage second (x >>= f) (x' >>= f') := by
  change Mirrors W stage _ (x.run >>= ExceptT.bindCont f) (x'.run >>= ExceptT.bindCont f')
  refine Mirrors.bind h fun later le r r' both => ?_
  cases both with
  | failed failure failure' => exact throw_mirrors failure failure'
  | given related => exact rest later le _ _ related

end CompileM

namespace Ledger

open CompileM Correspondence

variable {W : Correspondence σ π π'} {stage : σ} {context : CompileContext π}
  {context' : CompileContext π'} {n : Node π} {n' : Node π'} {ids ids' : List Identity}

/-! ### Questions -/

theorem report_mirrors (event event' : Event) :
    CompileM.Mirrors W stage (fun _ _ _ => True) (report event) (report event') :=
  .of_apply fun _ _ _ _ books => ⟨trivial, { books with }⟩

/-- Questions that are answered in the same way keep books mirroring each other. -/
theorem ask_mirrors {related : σ → α → α' → Prop} {answer : Answer α} {answer' : Answer α'}
    (h : Answer.Mirrors W.toPairing stage related answer answer') :
    MirrorsAttempt W stage related (ask answer) (ask answer') := by
  intro now le s s' books
  obtain ⟨later, from_now, both, supply⟩ := h now le s.supply s'.supply books.supply
  have pairs : ∀ i i', W.ids now i i' → W.ids later i i' := fun _ _ => ids_mono from_now
  refine ⟨later, from_now, both.mapError _ _, books.active.imp pairs, books.names.mono pairs,
    books.families.mono pairs, books.used, books.definitions, books.nextNumber, supply⟩

/-- Partners are given to adapters that answer them in the same way, or to nobody. -/
theorem resolve_mirrors (contexts : CompileContext.Mirrors W context context')
    (h : W.nodes stage n n') :
    CompileM.Mirrors W stage
      (fun later => Option.Rel fun adapter adapter' =>
        Adapter.Mirrors W.toPairing later adapter adapter' n n')
      (resolve context n) (resolve context' n') :=
  .of_apply fun now le _ _ books =>
    ⟨contexts.registry now n n' (W.nodes_mono le h), { books with }⟩

/-! ### Nodes in progress -/

private theorem contains_eq (hids : List.Forall₂ (W.ids stage) ids ids') {i i' : Identity}
    (h : W.ids stage i i') : ids.contains i = ids'.contains i' := by
  have mem := List.rel_mem (W.biUnique_ids stage) h hids
  rw [Bool.eq_iff_iff, List.contains_iff_mem, List.contains_iff_mem]
  exact mem

theorem isActive_mirrors (h : W.nodes stage n n') :
    CompileM.Mirrors W stage (fun _ => Eq) (isActive n) (isActive n') :=
  .of_apply fun _ le _ _ books =>
    ⟨contains_eq books.active (ids_of_nodes (W.nodes_mono le h)), books⟩

theorem beginWork_mirrors (h : W.nodes stage n n') :
    CompileM.Mirrors W stage (fun _ => Eq) (beginWork n) (beginWork n') :=
  .of_apply fun _ le _ _ books =>
    ⟨rfl, { books with active := .cons (ids_of_nodes (W.nodes_mono le h)) books.active }⟩

theorem endWork_mirrors (h : List.Forall₂ (W.ids stage) ids ids') :
    CompileM.Mirrors W stage (fun _ => Eq) (endWork ids) (endWork ids') := by
  refine .of_apply fun now le s s' books => ⟨rfl, ?_⟩
  have kept {i i' : Identity} (paired : W.ids now i i') :
      (!ids.contains i) = true ↔ (!ids'.contains i') = true := by
    rw [contains_eq (h.imp fun _ _ => ids_mono le) paired]
  rw [endWork_apply, endWork_apply]
  exact { books with
    active := List.rel_filter (fun _ _ paired => kept paired) books.active
    families := List.rel_filter (fun _ _ same => kept same.1) books.families }

theorem noteFamily_mirrors (family : BoundsFamily) (h : List.Forall₂ (W.ids stage) ids ids') :
    CompileM.Mirrors W stage (fun _ => Eq) (noteFamily family ids) (noteFamily family ids') := by
  refine .of_apply fun now le s s' books => ⟨rfl, ?_⟩
  exact { books with
    families :=
      books.families.foldl_put (W.biUnique_ids now) (h.imp fun _ _ => ids_mono le) family }

/-! ### Names -/

theorem generatedName_mirrors (stem : String) :
    CompileM.Mirrors W stage (fun _ => Eq) (generatedName stem) (generatedName stem) := by
  refine .of_apply fun now _ s s' books => ?_
  change (firstFree stem s.used s.used.length s.nextNumber).1 =
      (firstFree stem s'.used s'.used.length s'.nextNumber).1 ∧
    Ledger.Mirrors W now
      { s with nextNumber := (firstFree stem s.used s.used.length s.nextNumber).2 }
      { s' with nextNumber := (firstFree stem s'.used s'.used.length s'.nextNumber).2 }
  rw [books.used, books.nextNumber]
  exact ⟨rfl, { books with used := rfl, nextNumber := rfl }⟩

theorem titleName?_mirrors (contexts : CompileContext.Mirrors W context context')
    (h : W.nodes stage n n') :
    CompileM.Mirrors W stage (fun _ => Eq) (titleName? context n) (titleName? context' n') := by
  rw [titleName?, titleName?, ← contexts.options]
  split
  next =>
    refine (resolve_mirrors contexts h).bind fun later le adapter? adapter?' claims => ?_
    refine get_mirrors.bind fun now from_later s s' books => ?_
    have titles : (adapter?.bind fun adapter => adapter.title n) =
        adapter?'.bind fun adapter => adapter.title n' := by
      cases claims with
      | none => rfl
      | some alike => exact alike.title
    dsimp only
    rw [titles, books.used]
    exact pure_mirrors fun _ _ => rfl
  next => exact pure_mirrors fun _ _ => rfl

theorem newName_mirrors (contexts : CompileContext.Mirrors W context context')
    (h : W.nodes stage n n') :
    CompileM.Mirrors W stage (fun _ => Eq) (newName context n) (newName context' n') := by
  refine (titleName?_mirrors contexts h).bind ?_
  rintro later - title _ rfl
  cases title with
  | some title => exact pure_mirrors fun _ _ => rfl
  | none =>
    rw [← contexts.options]
    exact generatedName_mirrors _

private theorem naming_mirrors (h : W.nodes stage n n') (name : String) :
    CompileM.Mirrors W stage (fun _ => Eq)
      (modify fun s => { s with used := name :: s.used, names := Table.put s.names n.id name })
      (modify fun s =>
        { s with used := name :: s.used, names := Table.put s.names n'.id name }) := by
  refine .of_apply fun now le s s' books => ⟨rfl, ?_⟩
  have paired := ids_of_nodes (W.nodes_mono le h)
  exact { books with
    used := congrArg (name :: ·) books.used
    names := books.names.put (W.biUnique_ids now) paired name }

/-- Partners have the same name. -/
theorem nameOf_mirrors (contexts : CompileContext.Mirrors W context context')
    (h : W.nodes stage n n') :
    CompileM.Mirrors W stage (fun _ => Eq) (nameOf context n) (nameOf context' n') := by
  refine get_mirrors.bind fun now le s s' books => ?_
  have paired := W.nodes_mono le h
  rw [books.names.get?_eq (W.biUnique_ids now) (ids_of_nodes paired)]
  -- Both sides have given a name before, the same one, or both give it now.
  cases Table.get? s'.names n'.id with
  | some name => exact pure_mirrors fun _ _ => rfl
  | none =>
    refine (newName_mirrors contexts paired).bind ?_
    rintro later from_now name _ rfl
    exact (naming_mirrors (W.nodes_mono from_now paired) name).bind fun _ _ _ _ _ =>
      pure_mirrors fun _ _ => rfl

/-- Partners in progress are referred to in the same way. -/
theorem refer_mirrors (contexts : CompileContext.Mirrors W context context')
    (h : W.nodes stage n n') :
    CompileM.Mirrors W stage (fun _ => Eq) (refer context n) (refer context' n') := by
  refine (nameOf_mirrors contexts h).bind ?_
  rintro later le name _ rfl
  refine (report_mirrors _ _).bind fun now from_later _ _ _ => ?_
  refine get_mirrors.bind fun last from_now s s' books => ?_
  have paired := W.nodes_mono (le.trans (from_later.trans from_now)) h
  rw [books.families.get?_eq (W.biUnique_ids last) (ids_of_nodes paired)]
  exact pure_mirrors fun _ _ => rfl

/-! ### Definitions -/

private theorem define_mirrors {i i' : Identity} (paired : W.ids stage i i')
    (schema : Json.Fields) :
    CompileM.Mirrors W stage (fun _ => Eq) (define i schema) (define i' schema) := by
  refine .of_apply fun now le s s' books => ⟨rfl, ?_⟩
  have names := books.names.get?_eq (W.biUnique_ids now) (ids_mono le paired)
  rw [define, define, modify_apply, modify_apply]
  dsimp only
  rw [names, books.definitions]
  split
  next =>
    split
    · exact books
    · exact { books with definitions := rfl }
  next => exact books

/-- Partners that have a name get the same definition. -/
theorem complete_mirrors (h : W.nodes stage n n') (assembly : Assembly) :
    CompileM.Mirrors W stage (fun _ => Eq) (complete n assembly) (complete n' assembly) :=
  define_mirrors (ids_of_nodes h) assembly.schema

/-- Partners that have a name but no definition get the empty one. -/
theorem abandon_mirrors (h : List.Forall₂ (W.ids stage) ids ids') :
    CompileM.Mirrors W stage (fun _ => Eq) (abandon ids) (abandon ids') := by
  suffices from_stage : ∀ later, stage ≤ later →
      CompileM.Mirrors W later (fun _ => Eq) (abandon ids) (abandon ids') from from_stage _ le_rfl
  induction h with
  | nil => exact fun _ _ => pure_mirrors fun _ _ => rfl
  | cons paired _ ih =>
    intro later le
    exact (define_mirrors (ids_mono le paired) []).bind fun now from_later _ _ _ =>
      ih now (le.trans from_later)

end Ledger

end SchemaBridge
