import SchemaBridge.Proofs.Ledger.Naming

/-!
# Sound books

What holds of the books of a compilation at every moment, and how they may develop while a node is
compiled. A name in use is the name of exactly one node, and that node is still in progress or has
a definition. Compiling a node leaves the nodes in progress and their families as they were, only
adds names and definitions, and defines none of the nodes in progress.

## Main definitions

* `Ledger.Sound` : what holds of the books at every moment.
* `Ledger.Grows` : what has been entered stays in the books.
* `Ledger.Frame` : how the books develop while a node is compiled.
* `Ledger.stored` : the definitions after schemas have been stored for nodes.

## Main results

* `Ledger.Frame.trans` : developments follow one another.
* `Ledger.refer_of_named`, `Ledger.refer_of_unnamed`, `Ledger.refer_spec` : a reference names its
  node, once, and changes nothing else.
* `Ledger.has_stored_iff`, `Ledger.get?_stored_cases` : which definitions there are after storing.
-/

namespace SchemaBridge.Ledger

variable {π : Type}

open CompileM Stateful

/-! ### Invariants -/

/-- What holds of the books at every moment of a compilation. -/
structure Sound (s : Ledger) : Prop where
  /-- The names in use are the names of nodes. -/
  used : ∀ name, name ∈ s.used ↔ ∃ id, Table.get? s.names id = some name
  /-- No two nodes have the same name. -/
  injective :
    ∀ a b name, Table.get? s.names a = some name → Table.get? s.names b = some name → a = b
  /-- No name is defined twice. -/
  distinct : (Table.keys s.definitions).Nodup
  /-- Only names of nodes are defined. -/
  defined : ∀ name, Table.has s.definitions name = true → name ∈ s.used
  /-- A node with a name is in progress or has a definition. -/
  settled : ∀ id name, Table.get? s.names id = some name →
    id ∈ s.active ∨ Table.has s.definitions name = true
  /-- Families are only noted for nodes in progress. -/
  inProgress : ∀ id ∈ Table.keys s.families, id ∈ s.active

theorem sound_start (supply : Nat) : Sound (start supply) where
  used name := by simp [start]
  injective a b name h := by simp [start] at h
  distinct := List.nodup_nil
  defined name h := by simp [start, Table.has] at h
  settled id name h := by simp [start] at h
  inProgress id h := by simp [start] at h

/-- What has been entered stays in the books. -/
structure Grows (s t : Ledger) : Prop where
  names : ∀ id name, Table.get? s.names id = some name → Table.get? t.names id = some name
  definitions : ∀ name schema, Table.get? s.definitions name = some schema →
    Table.get? t.definitions name = some schema
  events : s.events <:+ t.events

/-- How the books develop while a node is compiled. -/
structure Frame (s t : Ledger) : Prop extends Grows s t where
  active : t.active = s.active
  families : t.families = s.families
  /-- A node in progress gets no definition. -/
  pending : ∀ id ∈ s.active, ∀ name, Table.get? t.names id = some name →
    Table.has t.definitions name = true →
      Table.get? s.names id = some name ∧ Table.has s.definitions name = true
  nextNumber : s.nextNumber ≤ t.nextNumber

theorem Grows.refl (s : Ledger) : Grows s s where
  names _ _ h := h
  definitions _ _ h := h
  events := List.suffix_rfl

theorem Grows.trans {s t u : Ledger} (first : Grows s t) (second : Grows t u) : Grows s u where
  names id name h := second.names id name (first.names id name h)
  definitions name schema h := second.definitions name schema (first.definitions name schema h)
  events := first.events.trans second.events

theorem Frame.refl (s : Ledger) : Frame s s where
  toGrows := Grows.refl s
  active := rfl
  families := rfl
  pending _ _ _ named defined := ⟨named, defined⟩
  nextNumber := Nat.le_refl _

theorem Frame.trans {s t u : Ledger} (first : Frame s t) (second : Frame t u) : Frame s u where
  toGrows := first.toGrows.trans second.toGrows
  active := second.active.trans first.active
  families := second.families.trans first.families
  pending id active name named defined := by
    have active' : id ∈ t.active := by rwa [first.active]
    obtain ⟨named', defined'⟩ := second.pending id active' name named defined
    exact first.pending id active name named' defined'
  nextNumber := Nat.le_trans first.nextNumber second.nextNumber

/-- Reports and new identities leave sound books sound. -/
theorem Sound.of_supply_events {s : Ledger} (h : Sound s) (supply : Nat) (events : List Event) :
    Sound { s with supply, events } :=
  ⟨h.used, h.injective, h.distinct, h.defined, h.settled, h.inProgress⟩

theorem Frame.of_supply_events (s : Ledger) (supply : Nat) (events : List Event) :
    Frame s { s with supply, events := events ++ s.events } where
  active := rfl
  families := rfl
  names _ _ h := h
  definitions _ _ h := h
  pending _ _ _ named defined := ⟨named, defined⟩
  nextNumber := Nat.le_refl _
  events := List.suffix_append ..

/-! ### References -/

/-- The names in use are still the names of nodes when a node gets its first name. -/
theorem mem_used_put {names : Table Identity String} {used : List String}
    (same : ∀ name, name ∈ used ↔ ∃ id, Table.get? names id = some name) {id : Identity}
    (unnamed : Table.get? names id = none) (name other : String) :
    other ∈ name :: used ↔ ∃ a, Table.get? (Table.put names id name) a = some other := by
  simp only [List.mem_cons, same, Table.get?_put]
  constructor
  · rintro (rfl | ⟨a, ha⟩)
    · exact ⟨id, if_pos rfl⟩
    · refine ⟨a, ?_⟩
      rw [if_neg, ha]
      rintro rfl
      rw [unnamed] at ha
      cases ha
  · rintro ⟨a, ha⟩
    split at ha
    · exact .inl (Option.some.inj ha).symm
    · exact .inr ⟨a, ha⟩

/-- A node that gets a free name while it is in progress. -/
theorem Sound.named {s : Ledger} (h : Sound s) {id : Identity} {name : String}
    (active : id ∈ s.active) (unnamed : Table.get? s.names id = none) (free : name ∉ s.used)
    (number supply : Nat) (events : List Event) :
    Sound { s with
      used := name :: s.used, names := Table.put s.names id name, nextNumber := number, supply,
      events } where
  used := mem_used_put h.used unnamed name
  injective a b other ha hb := by
    have unused (a : Identity) : Table.get? s.names a ≠ some name := fun e =>
      free ((h.used name).2 ⟨a, e⟩)
    simp only [Table.get?_put] at ha hb
    split at ha <;> split at hb
    · simp_all
    · obtain rfl := Option.some.inj ha
      exact absurd hb (unused b)
    · obtain rfl := Option.some.inj hb
      exact absurd ha (unused a)
    · exact h.injective a b other ha hb
  distinct := h.distinct
  defined other defined := List.mem_cons_of_mem _ (h.defined other defined)
  settled a other ha := by
    simp only [Table.get?_put] at ha
    split at ha
    next same => exact .inl (same ▸ active)
    next => exact h.settled a other ha
  inProgress := h.inProgress

/-- Naming a node in progress is a development of the books. -/
theorem Frame.named {s : Ledger} (h : Sound s) {id : Identity} {name : String}
    (unnamed : Table.get? s.names id = none) (free : name ∉ s.used)
    {number : Nat} (le : s.nextNumber ≤ number) (supply : Nat) (events : List Event) :
    Frame s { s with
      used := name :: s.used, names := Table.put s.names id name, nextNumber := number, supply,
      events := events ++ s.events } where
  active := rfl
  families := rfl
  names a other ha := by
    simp only [Table.get?_put]
    rw [if_neg, ha]
    rintro rfl
    rw [unnamed] at ha
    cases ha
  definitions _ _ h := h
  pending a _ other ha defined := by
    simp only [Table.get?_put] at ha
    split at ha
    · obtain rfl := Option.some.inj ha
      exact absurd (h.defined _ defined) free
    · exact ⟨ha, defined⟩
  nextNumber := le
  events := List.suffix_append ..

section Refer

variable (context : CompileContext π) (node : Node π) (s : Ledger)

/-- A reference to a node that has a name is only reported. -/
theorem refer_of_named {name : String} (named : Table.get? s.names node.id = some name) :
    refer context node s = ((refSchema name, (Table.get? s.families node.id).getD .value),
      { s with events := .referred name :: s.events }) := by
  have known : nameOf context node s = (name, s) := by
    rw [nameOf, bind_apply, get_apply, named]
    rfl
  rw [refer, bind_apply, known]
  rfl

/-- A reference to a node without a name gives it a new one, which is free. -/
theorem refer_of_unnamed (unnamed : Table.get? s.names node.id = none) :
    ∃ number events, s.nextNumber ≤ number ∧ (newName context node s).1 ∉ s.used ∧
      refer context node s = ((refSchema (newName context node s).1,
        (Table.get? s.families node.id).getD .value),
        { s with
          used := (newName context node s).1 :: s.used
          names := Table.put s.names node.id (newName context node s).1
          nextNumber := number
          events := .referred (newName context node s).1 :: events ++ s.events }) := by
  obtain ⟨number, events, state, le, free⟩ := newName_apply context node s
  have given : nameOf context node s = ((newName context node s).1,
      { (newName context node s).2 with
        used := (newName context node s).1 :: (newName context node s).2.used
        names := Table.put (newName context node s).2.names node.id
          (newName context node s).1 }) := by
    rw [nameOf, bind_apply, get_apply, unnamed]
    rfl
  refine ⟨number, events, le, free, ?_⟩
  rw [refer, bind_apply, given, state]
  rfl

end Refer

/-- A reference to a node in progress: the node has a name from then on, and the reference has that
name and the family that is noted for the node. -/
theorem refer_spec (context : CompileContext π) (node : Node π) {s : Ledger} (h : Sound s)
    (active : node.id ∈ s.active) :
    Sound (refer context node s).2 ∧ Frame s (refer context node s).2 ∧
      (refer context node s).2.supply = s.supply ∧
      (refer context node s).2.definitions = s.definitions ∧
      ∃ name, (refer context node s).1 =
          (refSchema name, (Table.get? s.families node.id).getD .value) ∧
        Table.get? (refer context node s).2.names node.id = some name := by
  cases named : Table.get? s.names node.id with
  | some name =>
    rw [refer_of_named context node s named]
    exact ⟨h.of_supply_events _ _, Frame.of_supply_events s s.supply [.referred name], rfl, rfl,
      name, rfl, named⟩
  | none =>
    obtain ⟨number, events, le, free, result⟩ := refer_of_unnamed context node s named
    rw [result]
    exact ⟨h.named active named free _ _ _, Frame.named h named free le _ (_ :: events),
      rfl, rfl, _, rfl, Table.get?_put_self ..⟩

/-! ### Definitions -/

/-- The definitions after schemas have been stored as those of nodes, one after the other. A schema
is stored under the name of its node, unless there is no name or the name has a definition. -/
def stored (names : Table Identity String) (definitions : Table String Json.Fields) :
    List (Identity × Json.Fields) → Table String Json.Fields
  | [] => definitions
  | (id, schema) :: rest =>
    stored names
      (match Table.get? names id with
        | some name =>
          if Table.has definitions name then definitions else Table.put definitions name schema
        | none => definitions)
      rest

theorem define_apply (id : Identity) (schema : Json.Fields) (s : Ledger) :
    define id schema s =
      ((), { s with definitions := stored s.names s.definitions [(id, schema)] }) := by
  rw [define, modify_apply]
  refine Prod.ext rfl ?_
  simp only [stored]
  cases named : Table.get? s.names id with
  | none => rfl
  | some name =>
    dsimp only
    split <;> rfl

theorem stored_append (names : Table Identity String) (definitions : Table String Json.Fields)
    (first second : List (Identity × Json.Fields)) :
    stored names definitions (first ++ second) =
      stored names (stored names definitions first) second := by
  induction first generalizing definitions with
  | nil => rfl
  | cons entry rest ih => exact ih _

theorem abandon_apply (ids : List Identity) (s : Ledger) :
    abandon ids s =
      ((), { s with
        definitions := stored s.names s.definitions (ids.map fun id => (id, [])) }) := by
  induction ids generalizing s with
  | nil => rfl
  | cons id rest ih =>
    have step : abandon (id :: rest) s = abandon rest (define id [] s).2 := rfl
    rw [step, ih, define_apply]
    rfl

section Stored

variable {names : Table Identity String} {definitions : Table String Json.Fields}

/-- What is defined after storing: what was, and the names of the nodes that were stored. -/
theorem has_stored_iff (entries : List (Identity × Json.Fields)) (name : String) :
    Table.has (stored names definitions entries) name = true ↔
      Table.has definitions name = true ∨
        ∃ entry ∈ entries, Table.get? names entry.1 = some name := by
  induction entries generalizing definitions with
  | nil => simp [stored]
  | cons entry rest ih =>
    obtain ⟨id, schema⟩ := entry
    simp only [stored, ih, List.mem_cons, exists_eq_or_imp, or_assoc.symm]
    refine or_congr_left ?_
    cases named : Table.get? names id with
    | none => simp
    | some given =>
      dsimp only
      split
      next defined =>
        refine ⟨.inl, fun h => h.elim (fun already => already) fun same => ?_⟩
        rwa [← Option.some.inj same]
      next =>
        simp only [Table.has, Table.get?_put, Option.some.injEq]
        split <;> simp_all

/-- Storing defines no name twice. -/
theorem nodup_keys_stored (entries : List (Identity × Json.Fields))
    (h : (Table.keys definitions).Nodup) :
    (Table.keys (stored names definitions entries)).Nodup := by
  induction entries generalizing definitions with
  | nil => exact h
  | cons entry rest ih =>
    obtain ⟨id, schema⟩ := entry
    refine ih ?_
    split
    · split
      · exact h
      · exact Table.nodup_keys_put _ _ _ h
    · exact h

/-- Storing adds definitions after those that there are. -/
theorem prefix_stored (entries : List (Identity × Json.Fields)) :
    definitions <+: stored names definitions entries := by
  induction entries generalizing definitions with
  | nil => exact List.prefix_rfl
  | cons entry rest ih =>
    obtain ⟨id, schema⟩ := entry
    refine List.IsPrefix.trans ?_ ih
    cases Table.get? names id with
    | none => exact List.prefix_rfl
    | some given =>
      dsimp only
      split
      · exact List.prefix_rfl
      next undefined =>
        rw [Table.put_of_notMem _ fun mem => undefined ((Table.has_iff_mem_keys _ _).2 mem)]
        exact List.prefix_append ..

/-- Storing keeps the definitions that there are. -/
theorem get?_stored_of_some (entries : List (Identity × Json.Fields)) {name : String}
    {schema : Json.Fields} (h : Table.get? definitions name = some schema) :
    Table.get? (stored names definitions entries) name = some schema := by
  obtain ⟨more, same⟩ : definitions <+: stored names definitions entries := prefix_stored entries
  rw [← same, Table.get?_append, h, Option.some_or]

/-- A definition after storing was there before, or is the schema that was stored for its node. -/
theorem get?_stored_cases (entries : List (Identity × Json.Fields)) {name : String}
    {schema : Json.Fields} (h : Table.get? (stored names definitions entries) name = some schema) :
    Table.get? definitions name = some schema ∨
      ∃ id, (id, schema) ∈ entries ∧ Table.get? names id = some name := by
  induction entries generalizing definitions with
  | nil => exact .inl h
  | cons entry rest ih =>
    obtain ⟨id, other⟩ := entry
    rcases ih h with before | ⟨a, mem, named⟩
    · cases named : Table.get? names id with
      | none =>
        rw [named] at before
        exact .inl before
      | some given =>
        rw [named] at before
        dsimp only at before
        split at before
        · exact .inl before
        · rw [Table.get?_put] at before
          split at before
          next same =>
            obtain rfl := Option.some.inj before
            exact .inr ⟨id, List.mem_cons_self, by rw [named, same]⟩
          next => exact .inl before
    · exact .inr ⟨a, List.mem_cons_of_mem _ mem, named⟩

end Stored

end SchemaBridge.Ledger
