import SchemaBridge.Proofs.Compile.Moments

/-!
# Calls are framed

What a call does to the books is confined, whatever happens in it: whether its node is compiled,
given up, too deep or referred to. The nodes in progress and their families are afterwards what they
were at the call, entries are only added to the names and to the definitions, and the names in use
are the names of nodes. At every moment in between the nodes in progress are those on the path from
the root, each of them once.

All of this is said of one operation on the books first, and then holds of the moments of a call,
since they follow one another by single operations. Nothing is assumed of the node that is compiled,
so a call is framed from the books at any moment of a run, and not only where the run makes one.

## Main definitions

* `Ledger.Advances` : what operations on the books never take back.
* `Ledger.Orderly` : what holds of the books at every moment.
* `Moment.Placed` : the nodes in progress are those on the path, after those at the start.
* `Call.Framed` : what a call does to the books.

## Main results

* `Moment.Next.advances`, `Moment.Next.placed` : what one operation does.
* `Call.framed` : every call from orderly books is framed.
* `Registry.call_framed` : every call from the books at a moment of a run is framed.
-/

namespace SchemaBridge

open Chain Ledger Compile

variable {π : Type}

namespace Ledger

/-! ### What operations keep -/

/-- What operations on the books never take back: names and definitions are only added, after those
that there are, and numbers are only used up. -/
structure Advances (s t : Ledger) : Prop where
  names : s.names <+: t.names
  definitions : s.definitions <+: t.definitions
  nextNumber : s.nextNumber ≤ t.nextNumber

/-- The names in use are exactly the names of nodes. -/
def UsesNames (s : Ledger) : Prop := ∀ name, name ∈ s.used ↔ ∃ id, Table.get? s.names id = some name

/-- What holds of the books at every moment. -/
structure Orderly (s : Ledger) : Prop where
  /-- No node is in progress twice. -/
  distinct : s.active.Nodup
  /-- Families are only noted for nodes in progress. -/
  inProgress : ∀ id ∈ Table.keys s.families, id ∈ s.active
  /-- The names in use are exactly the names of nodes. -/
  used : UsesNames s

theorem Advances.refl (s : Ledger) : Advances s s :=
  ⟨List.prefix_rfl, List.prefix_rfl, Nat.le_refl _⟩

theorem Advances.trans {s t u : Ledger} (first : Advances s t) (second : Advances t u) :
    Advances s u where
  names := first.names.trans second.names
  definitions := first.definitions.trans second.definitions
  nextNumber := Nat.le_trans first.nextNumber second.nextNumber

theorem orderly_start (supply : Nat) : Orderly (start supply) where
  distinct := List.nodup_nil
  inProgress := nofun
  used name := by simp [start]

/-- A reference only adds a name, and leaves the nodes in progress and their families alone. -/
theorem refer_advances (context : CompileContext π) (node : Node π) (s : Ledger) :
    Advances s (refer context node s).2 ∧ (refer context node s).2.active = s.active ∧
      (refer context node s).2.families = s.families ∧
      (UsesNames s → UsesNames (refer context node s).2) := by
  cases named : Table.get? s.names node.id with
  | some name =>
    rw [refer_of_named context node s named]
    exact ⟨⟨List.prefix_rfl, List.prefix_rfl, Nat.le_refl _⟩, rfl, rfl, id⟩
  | none =>
    obtain ⟨number, events, le, -, result⟩ := refer_of_unnamed context node s named
    have unnamed : node.id ∉ Table.keys s.names := (Table.get?_eq_none_iff _ _).1 named
    rw [result]
    refine ⟨⟨?_, List.prefix_rfl, le⟩, rfl, rfl, fun same => mem_used_put same named _⟩
    change s.names <+: Table.put _ _ _
    rw [Table.put_of_notMem _ unnamed]
    exact List.prefix_append ..

end Ledger

namespace Moment

/-! ### Moments -/

/-- A moment since some books, in a compilation that has started at a node. -/
structure Placed (registry : Registry π) (start : Node π) (s : Ledger) (now : Moment π) : Prop where
  /-- In progress are the nodes on the path, the latest first, and those that were in progress. -/
  active : now.books.active = (now.path.map (·.id)).reverse ++ s.active
  /-- Apart from nodes on the path, the families are those that were noted. -/
  families : now.books.families.filter (fun entry => !(now.path.map (·.id)).contains entry.1) =
    s.families
  /-- Each node on the path leads to the next one. -/
  walk : List.IsChain (Leads registry) now.path
  /-- The path starts where the compilation has started. -/
  starts : ∀ first ∈ now.path.head?, first = start
  orderly : Orderly now.books

section Step

variable {context : CompileContext π} {start : Node π} {s : Ledger} {now next : Moment π}

/-- An operation takes nothing back. -/
theorem Next.advances (h : Next context start now next) : Advances now.books next.books := by
  cases h with
  | refers path s node => exact (refer_advances context node s).1
  | defines path s id schema =>
    rw [define_apply]
    exact ⟨List.prefix_rfl, prefix_stored _, Nat.le_refl _⟩
  | reports | asks | resolves | begins | notes | ends =>
    exact ⟨List.prefix_rfl, List.prefix_rfl, Nat.le_refl _⟩

theorem placed_start (registry : Registry π) (start : Node π) (orderly : Orderly s) :
    Placed registry start s ⟨[], s⟩ where
  active := rfl
  families := List.filter_eq_self.2 fun _ _ => rfl
  walk := .nil
  starts := nofun
  orderly := orderly

/-- Nothing moves if the nodes in progress and their families stay as they are. -/
theorem Placed.still {registry : Registry π} {path : List (Node π)} {t u : Ledger}
    (h : Placed registry start s ⟨path, t⟩) (active : u.active = t.active)
    (families : u.families = t.families) (used : UsesNames u) :
    Placed registry start s ⟨path, u⟩ where
  active := active.trans h.active
  families := by
    dsimp only
    rw [families]
    exact h.families
  walk := h.walk
  starts := h.starts
  orderly :=
    ⟨active ▸ h.orderly.distinct, by rw [active, families]; exact h.orderly.inProgress, used⟩

/-- Work is started on a node to which the path goes on. -/
theorem Placed.begins {registry : Registry π} {path : List (Node π)} {t : Ledger} {node : Node π}
    (h : Placed registry start s ⟨path, t⟩) (onward : GoesOn registry start path node)
    (new : node.id ∉ t.active) :
    Placed registry start s ⟨path ++ [node], (beginWork node t).2⟩ where
  active := by
    have before : t.active = (path.map (·.id)).reverse ++ s.active := h.active
    rw [beginWork_apply]
    simp [before]
  families := by
    -- No family is noted for the node, since it was not in progress.
    refine Eq.trans (List.filter_congr fun entry mem => ?_) h.families
    have other : entry.1 ≠ node.id := fun same =>
      new (same ▸ h.orderly.inProgress _ (List.mem_map_of_mem mem))
    simp [other]
  walk := by
    refine List.isChain_append.2 ⟨h.walk, .singleton _, fun last isLast first isFirst => ?_⟩
    obtain rfl := Option.some.inj isFirst
    rwa [GoesOn, Option.mem_def.1 isLast] at onward
  starts first isFirst := by
    cases path with
    | nil =>
      obtain rfl := Option.some.inj isFirst
      exact onward
    | cons => exact h.starts first isFirst
  orderly := {
    distinct := List.nodup_cons.2 ⟨new, h.orderly.distinct⟩
    inProgress := fun id mem => List.mem_cons_of_mem _ (h.orderly.inProgress id mem)
    used := h.orderly.used }

/-- A family is noted for nodes on the path. -/
theorem Placed.notes {registry : Registry π} {path : List (Node π)} {t : Ledger}
    (h : Placed registry start s ⟨path, t⟩) (family : BoundsFamily) {ids : List Identity}
    (onPath : ∀ id ∈ ids, id ∈ path.map (·.id)) :
    Placed registry start s ⟨path, (noteFamily family ids t).2⟩ where
  active := h.active
  families := by
    have off : ∀ id ∈ ids, (!(path.map (·.id)).contains id) = false := fun id mem => by
      simpa using onPath id mem
    exact (filter_noteFamily off family t).trans h.families
  walk := h.walk
  starts := h.starts
  orderly := {
    distinct := h.orderly.distinct
    inProgress := fun id mem => by
      change id ∈ t.active
      rcases keys_noteFamily mem with before | noted
      · exact h.orderly.inProgress id before
      · have before : t.active = (path.map (·.id)).reverse ++ s.active := h.active
        rw [before]
        exact List.mem_append_left _ (List.mem_reverse.2 (onPath id noted))
    used := h.orderly.used }

/-- Work is ended on the last nodes of the path. -/
theorem Placed.ends {registry : Registry π} {path left : List (Node π)} {t : Ledger}
    (h : Placed registry start s ⟨path ++ left, t⟩) :
    Placed registry start s ⟨path, (endWork (left.map (·.id)) t).2⟩ := by
  -- No node is in progress twice, so none of those before goes with the last ones.
  have before : t.active =
      (left.map (·.id)).reverse ++ ((path.map (·.id)).reverse ++ s.active) := by
    rw [← List.append_assoc, ← List.reverse_append, ← List.map_append]
    exact h.active
  have distinct : t.active.Nodup := h.orderly.distinct
  have fresh : ∀ id ∈ left.map (·.id), id ∉ (path.map (·.id)).reverse ++ s.active := by
    intro id isLeft isBefore
    rw [before] at distinct
    exact (List.nodup_append.1 distinct).2.2 id (List.mem_reverse.2 isLeft) id isBefore rfl
  have after : t.active.filter (fun id => !(left.map (·.id)).contains id) =
      (path.map (·.id)).reverse ++ s.active := by
    rw [before, filter_reverse_append fresh]
  refine ⟨after, ?_, h.walk.left_of_append, fun first isFirst => h.starts first ?_, ?_, ?_,
    h.orderly.used⟩
  · refine Eq.trans ?_ h.families
    rw [endWork_apply, List.filter_filter]
    refine List.filter_congr fun entry _ => ?_
    simp
  · cases path with
    | nil => nomatch isFirst
    | cons => exact isFirst
  · exact distinct.filter _
  · intro id mem
    obtain ⟨entry, isEntry, rfl⟩ := List.mem_map.1 mem
    obtain ⟨noted, out⟩ := List.mem_filter.1 isEntry
    exact List.mem_filter.2 ⟨h.orderly.inProgress _ (List.mem_map_of_mem noted), out⟩

/-- An operation changes the nodes in progress as it changes the path. -/
theorem Next.placed (h : Next context start now next)
    (placed : Placed context.registry start s now) : Placed context.registry start s next := by
  cases h with
  | reports | asks | resolves => exact placed.still rfl rfl placed.orderly.used
  | begins onward new => exact placed.begins onward new
  | notes t family onPath => exact placed.notes family onPath
  | refers path t node =>
    obtain ⟨-, active, families, used⟩ := refer_advances context node t
    exact placed.still active families (used placed.orderly.used)
  | defines path t id schema =>
    rw [define_apply]
    exact placed.still rfl rfl placed.orderly.used
  | ends => exact placed.ends

end Step

end Moment

open Moment

/-! ### Calls -/

namespace Call

/-- What a call does to the books. -/
structure Framed (context : CompileContext π) (call : Call π) : Prop where
  /-- From the books at the call it goes through its moments to the books after it. -/
  runs : Runs context call.node ⟨[], call.books⟩ (call.moments context []) ⟨[], call.after context⟩
  /-- Each moment is placed: the nodes in progress are those of a path from the node of the call,
  after those that were in progress at the call. -/
  placed : ∀ now ∈ call.moments context [], Placed context.registry call.node call.books now
  active : (call.after context).active = call.books.active
  families : (call.after context).families = call.books.families
  advances : Advances call.books (call.after context)
  used : UsesNames (call.after context)

/-- A call is framed if it is made from orderly books, whatever its node and the levels that are
left. -/
theorem framed (context : CompileContext π) (call : Call π) (orderly : Orderly call.books) :
    Framed context call := by
  have onward : GoesOn context.registry call.node [] call.node := rfl
  have runs := call.runs onward
  have placed := runs.keeps (fun _ _ => Next.placed)
    (placed_start context.registry call.node orderly)
  have advances := runs.keeps (P := fun now => Advances call.books now.books)
    (fun _ _ next before => before.trans next.advances) (Advances.refl call.books)
  have last := placed _ runs.last_mem
  exact {
    runs
    placed := fun now mem => placed now (List.mem_cons_of_mem _ mem)
    active := last.active
    families := (List.filter_eq_self.2 fun _ _ => rfl).symm.trans last.families
    advances := advances _ runs.last_mem
    used := last.orderly.used }

end Call

namespace Registry

/-- The moments of a run, from its start on. -/
def moments (registry : Registry π) (options : DocumentOptions) (root : Node π) (supply : Nat) :
    List (Moment π) :=
  ⟨[], start supply⟩ :: (rootCall options root supply).moments ⟨registry, options⟩ []

/-- At every moment of a run the nodes in progress are those on the path from the root, and a call
for any node from the books at that moment is framed. Every call that the run makes is made at one
of these moments, on the path to its node, and what happens during it are moments of the run. -/
theorem call_framed (registry : Registry π) (options : DocumentOptions) (root : Node π)
    (supply : Nat) :
    (∀ now ∈ registry.moments options root supply,
      Placed registry root (start supply) now ∧
        ∀ levels node, Call.Framed ⟨registry, options⟩ ⟨levels, node, now.books⟩) ∧
    ∀ call, Call.Within ⟨registry, options⟩ (rootCall options root supply) call →
      ∃ path, GoesOn registry root path call.node ∧
        ⟨path, call.books⟩ ∈ registry.moments options root supply ∧
        call.moments ⟨registry, options⟩ path ⊆ registry.moments options root supply := by
  have atStart : Placed registry root (start supply) ⟨[], start supply⟩ :=
    placed_start registry root (orderly_start supply)
  have whole := Call.framed ⟨registry, options⟩ (rootCall options root supply)
    (orderly_start supply)
  have placed : ∀ now ∈ registry.moments options root supply,
      Placed registry root (start supply) now :=
    List.forall_mem_cons.2 ⟨atStart, whole.placed⟩
  refine ⟨fun now mem => ⟨placed now mem, fun levels node => ?_⟩, fun call within => ?_⟩
  · exact Call.framed _ _ (placed now mem).orderly
  · obtain ⟨path, onward, made, among⟩ := within.moments
    exact ⟨path, onward, made, fun m mem => List.mem_cons_of_mem _ (among mem)⟩

/-- When a list of itself has been referred to, it is on the path and has a name but no definition,
and a call for another list that is made then is framed. -/
theorem selfList_call_framed :
    ∃ now ∈ selfList.moments {} ⟨⟨0⟩, "list", ()⟩ 1,
      now.path = [⟨⟨0⟩, "list", ()⟩] ∧ now.books.active = [⟨0⟩] ∧
      now.books.names = [(⟨0⟩, "List")] ∧ now.books.definitions = [] ∧
      Placed selfList ⟨⟨0⟩, "list", ()⟩ (start 1) now ∧
      Call.Framed ⟨selfList, {}⟩ ⟨1, ⟨⟨1⟩, "list", ()⟩, now.books⟩ := by
  have reached := List.getElem_mem
    (show 5 < (selfList.moments {} ⟨⟨0⟩, "list", ()⟩ 1).length by decide)
  obtain ⟨placed, framed⟩ := (call_framed selfList {} ⟨⟨0⟩, "list", ()⟩ 1).1 _ reached
  exact ⟨_, reached, rfl, rfl, rfl, rfl, placed, framed 1 _⟩

end Registry

end SchemaBridge
