import SchemaBridge.Proofs.Ledger.Books

/-!
# Starting and ending work on nodes

Work is started on several nodes at once, one for each layer of a chain, and ended on all of them
together. In between the books develop as they may; at the end schemas are stored for the nodes. If
every node that has a name by then gets a definition, the books are sound again, and the nodes in
progress and their families are what they were at the start.

## Main definitions

* `Ledger.Opened` : work on nodes has been started.
* `Ledger.finished`, `Ledger.lost` : the books when work on nodes has ended.

## Main results

* `Ledger.sound_finished`, `Ledger.sound_lost` : the books are sound again.
* `Ledger.get?_finished` : the definition of a node that was named meanwhile.
-/

namespace SchemaBridge.Ledger

variable {π : Type}

/-- Work on nodes has been started: they are in progress, and families are noted for no others but
those in progress before. -/
structure Opened (ids : List Identity) (s t : Ledger) : Prop where
  fresh : ∀ id ∈ ids, id ∉ s.active
  active : t.active = ids.reverse ++ s.active
  families : t.families.filter (fun entry => !ids.contains entry.1) = s.families
  inProgress : ∀ id ∈ Table.keys t.families, id ∈ t.active
  names : t.names = s.names
  used : t.used = s.used
  definitions : t.definitions = s.definitions
  nextNumber : t.nextNumber = s.nextNumber
  events : s.events <:+ t.events

/-- The books when work on nodes has ended and schemas have been stored. -/
def finished (ids : List Identity) (entries : List (Identity × Json.Fields)) (s : Ledger) :
    Ledger :=
  { s with
    active := s.active.filter fun id => !ids.contains id
    families := s.families.filter fun entry => !ids.contains entry.1
    definitions := stored s.names s.definitions entries }

/-- The books when nodes have been given up. -/
def lost (ids : List Identity) (failure : CompileFailure) (s : Ledger) : Ledger :=
  let s := finished ids (ids.map fun id => (id, [])) s
  { s with events := .givenUp failure :: s.events }

/-! ### Starting -/

theorem opened_of_sound {s : Ledger} (h : Sound s) {ids : List Identity}
    (fresh : ∀ id ∈ ids, id ∉ s.active) (supply : Nat) (events : List Event) :
    Opened ids s
      { s with active := ids.reverse ++ s.active, supply, events := events ++ s.events } where
  fresh := fresh
  active := rfl
  families := by
    refine List.filter_eq_self.2 fun entry mem => ?_
    have active := h.inProgress _ (List.mem_map_of_mem mem)
    simpa using fun inside => fresh _ inside active
  inProgress id mem := List.mem_append_right _ (h.inProgress id mem)
  names := rfl
  used := rfl
  definitions := rfl
  nextNumber := rfl
  events := List.suffix_append ..

private theorem filter_put {p : Identity → Bool} {id : Identity} (out : p id = false)
    (t : Table Identity BoundsFamily) (family : BoundsFamily) :
    (Table.put t id family).filter (fun entry => p entry.1) = t.filter fun entry => p entry.1 := by
  induction t with
  | nil => simp [Table.put, out]
  | cons entry rest ih =>
    obtain ⟨key, noted⟩ := entry
    rw [Table.put]
    split
    next same => subst same; simp [out]
    next => simp [List.filter_cons, ih]

/-- Noting a family for nodes leaves what is noted for other nodes alone. -/
theorem filter_noteFamily {p : Identity → Bool} {ids : List Identity}
    (out : ∀ id ∈ ids, p id = false) (family : BoundsFamily) (s : Ledger) :
    (noteFamily family ids s).2.families.filter (fun entry => p entry.1) =
      s.families.filter fun entry => p entry.1 := by
  rw [noteFamily_apply]
  generalize s.families = families
  induction ids generalizing families with
  | nil => rfl
  | cons id rest ih =>
    exact (ih (fun a mem => out a (List.mem_cons_of_mem _ mem)) _).trans
      (filter_put (out id List.mem_cons_self) families family)

/-- A family is only noted for the nodes for which it is to be noted. -/
theorem keys_noteFamily {ids : List Identity} {family : BoundsFamily} {s : Ledger} {id : Identity}
    (h : id ∈ Table.keys (noteFamily family ids s).2.families) :
    id ∈ Table.keys s.families ∨ id ∈ ids := by
  rw [noteFamily_apply] at h
  generalize s.families = families at h ⊢
  induction ids generalizing families with
  | nil => exact .inl h
  | cons first rest ih =>
    rcases ih _ h with before | later
    · rw [Table.keys_put] at before
      split at before
      · exact .inl before
      · refine (List.mem_append.1 before).imp_right fun new => ?_
        exact List.mem_singleton.1 new ▸ List.mem_cons_self
    · exact .inr (List.mem_cons_of_mem _ later)

/-- The family of a base is noted for nodes that work has been started on. -/
theorem Opened.noted {ids : List Identity} {s t : Ledger} (h : Opened ids s t)
    (family : BoundsFamily) : Opened ids s (noteFamily family ids t).2 where
  fresh := h.fresh
  active := h.active
  families := by
    rw [@filter_noteFamily (fun id => !ids.contains id) ids (by simp) family t]
    exact h.families
  inProgress id mem := by
    change id ∈ t.active
    rcases keys_noteFamily mem with before | inside
    · exact h.inProgress id before
    · rw [h.active]
      exact List.mem_append_left _ (List.mem_reverse.2 inside)
  names := h.names
  used := h.used
  definitions := h.definitions
  nextNumber := h.nextNumber
  events := h.events

theorem Opened.sound {ids : List Identity} {s t : Ledger} (h : Opened ids s t) (sound : Sound s) :
    Sound t where
  used name := by rw [h.used, h.names, sound.used]
  injective := by rw [h.names]; exact sound.injective
  distinct := by rw [h.definitions]; exact sound.distinct
  defined := by rw [h.definitions, h.used]; exact sound.defined
  settled id name named := by
    rw [h.names] at named
    rw [h.definitions, h.active]
    exact (sound.settled id name named).imp_left (List.mem_append_right _)
  inProgress := h.inProgress

theorem Opened.grows {ids : List Identity} {s t : Ledger} (h : Opened ids s t) : Grows s t where
  names := by rw [h.names]; exact fun _ _ named => named
  definitions := by rw [h.definitions]; exact fun _ _ defined => defined
  events := h.events

/-! ### Ending -/

/-- Without the nodes that work was started on last, the nodes in progress are those before. -/
theorem filter_reverse_append {ids before : List Identity} (fresh : ∀ id ∈ ids, id ∉ before) :
    (ids.reverse ++ before).filter (fun id => !ids.contains id) = before := by
  rw [List.filter_append]
  have gone : ids.reverse.filter (fun id => !ids.contains id) = [] := by simp
  have kept : before.filter (fun id => !ids.contains id) = before := by
    refine List.filter_eq_self.2 fun id mem => ?_
    simpa using fun inside => fresh id inside mem
  rw [gone, kept, List.nil_append]

/-- When work ends, the nodes in progress are those that were before. -/
theorem Opened.filter_active {ids : List Identity} {s t : Ledger} (h : Opened ids s t) :
    t.active.filter (fun id => !ids.contains id) = s.active := by
  rw [h.active, filter_reverse_append h.fresh]

theorem grows_finished (ids : List Identity) (entries : List (Identity × Json.Fields))
    (s : Ledger) :
    Grows s (finished ids entries s) where
  names _ _ named := named
  definitions _ _ defined := get?_stored_of_some entries defined
  events := List.suffix_rfl

theorem grows_lost (ids : List Identity) (failure : CompileFailure) (s : Ledger) :
    Grows s (lost ids failure s) :=
  (grows_finished ids _ s).trans
    (Frame.of_supply_events _ (finished ids _ s).supply [.givenUp failure]).toGrows

section Finished

variable {ids : List Identity} {s t u : Ledger} (entries : List (Identity × Json.Fields))

/-- The books are sound again when work ends, and have developed as they may, if every node that has
a name by then has a definition. -/
theorem sound_finished (opened : Opened ids s t) (frame : Frame t u) (sound : Sound u)
    (inside : ∀ entry ∈ entries, entry.1 ∈ ids)
    (complete : ∀ id ∈ ids, ∀ name, Table.get? u.names id = some name →
      Table.has u.definitions name = true ∨ id ∈ entries.map Prod.fst) :
    Sound (finished ids entries u) ∧ Frame s (finished ids entries u) := by
  have active : (finished ids entries u).active = s.active := by
    change u.active.filter _ = _
    rw [frame.active, opened.filter_active]
  have families : (finished ids entries u).families = s.families := by
    change u.families.filter _ = _
    rw [frame.families, opened.families]
  constructor
  · refine ⟨sound.used, sound.injective, nodup_keys_stored entries sound.distinct,
      fun name defined => ?_, fun id name named => ?_, ?_⟩
    · rcases (has_stored_iff entries name).1 defined with before | ⟨entry, _, named⟩
      · exact sound.defined name before
      · exact (sound.used name).2 ⟨_, named⟩
    · by_cases mem : id ∈ ids
      · refine .inr ((has_stored_iff entries name).2 ?_)
        refine (complete id mem name named).imp_right fun stored => ?_
        obtain ⟨entry, isEntry, rfl⟩ := List.mem_map.1 stored
        exact ⟨entry, isEntry, named⟩
      · refine (sound.settled id name named).imp (fun h => ?_)
          fun h => (has_stored_iff entries name).2 (.inl h)
        exact List.mem_filter.2 ⟨h, by simpa using mem⟩
    · intro id mem
      rw [active]
      rw [families, ← opened.families] at mem
      obtain ⟨entry, isEntry, rfl⟩ := List.mem_map.1 mem
      obtain ⟨noted, out⟩ := List.mem_filter.1 isEntry
      have known := opened.inProgress _ (List.mem_map_of_mem noted)
      rw [opened.active] at known
      refine (List.mem_append.1 known).resolve_left fun h => ?_
      simp [List.mem_reverse.1 h] at out
  · refine ⟨(opened.grows.trans frame.toGrows).trans (grows_finished ids entries u), active,
      families, fun id old name named defined => ?_, ?_⟩
    · rcases (has_stored_iff entries name).1 defined with before | ⟨entry, isEntry, same⟩
      · have earlier : id ∈ t.active := by
          rw [opened.active]
          exact List.mem_append_right _ old
        have pending := frame.pending id earlier name named before
        rwa [opened.names, opened.definitions] at pending
      · obtain rfl := sound.injective _ _ name same named
        exact absurd old (opened.fresh _ (inside entry isEntry))
    · change s.nextNumber ≤ u.nextNumber
      rw [← opened.nextNumber]
      exact frame.nextNumber

/-- The books are sound again when nodes have been given up. -/
theorem sound_lost (opened : Opened ids s t) (frame : Frame t u) (sound : Sound u)
    (failure : CompileFailure) : Sound (lost ids failure u) ∧ Frame s (lost ids failure u) := by
  obtain ⟨sound', frame'⟩ := sound_finished (ids.map fun id => (id, [])) opened frame sound
    (by simp) fun id mem _ _ => .inr (by simpa using mem)
  exact ⟨sound'.of_supply_events _ _,
    frame'.trans (Frame.of_supply_events _ (finished ids _ u).supply [.givenUp failure])⟩

/-- A node that was named after work on it was started gets the schema that is stored for it. -/
theorem get?_finished (opened : Opened ids s t) (frame : Frame t u) (sound : Sound u)
    {id : Identity} {name : String} (mem : id ∈ ids) (unnamed : Table.get? s.names id = none)
    (named : Table.get? u.names id = some name) {schema : Json.Fields}
    (isStored : (id, schema) ∈ entries)
    (only : ∀ other, (id, other) ∈ entries → other = schema) :
    Table.get? (finished ids entries u).definitions name = some schema := by
  have undefined : ¬ Table.has u.definitions name = true := by
    intro defined
    have active : id ∈ t.active := by
      rw [opened.active]
      exact List.mem_append_left _ (List.mem_reverse.2 mem)
    have before := (frame.pending id active name named defined).1
    rw [opened.names, unnamed] at before
    cases before
  have defined : Table.has (stored u.names u.definitions entries) name = true :=
    (has_stored_iff entries name).2 (.inr ⟨_, isStored, named⟩)
  obtain ⟨found, get⟩ := Option.isSome_iff_exists.1 defined
  rcases get?_stored_cases entries get with before | ⟨other, isEntry, same⟩
  · rw [Table.has, before] at undefined
    exact absurd rfl undefined
  · obtain rfl := sound.injective _ _ name same named
    rw [only found isEntry] at get
    exact get

end Finished

end SchemaBridge.Ledger
