import SchemaBridge.Proofs.Compile.Calls

/-!
# Compilation keeps its books

The books of a run are sound at every call: each node that has a name is in progress or has a
definition, and each definition is what some call of the run made of a node of that name. A call
keeps this, leaves the nodes in progress as they were, and answers as the calls that it makes say.
The proof is by induction on the levels of nodes that are left, and goes through the ways in which
the compilation of one node can go.

## Main definitions

* `Compile.Trusted` : sound books whose definitions come from calls of a run.
* `Call.Keeps` : a call keeps the books.

## Main results

* `Call.keeps_of_spawns` : a call keeps the books if the calls that it makes do.
* `Call.keeps` : every call of a run keeps the books.
-/

namespace SchemaBridge

open Chain Ledger Compile Plan CompileM Stateful

variable {π : Type}

namespace Compile

/-- Sound books whose definitions come from a run: a definition is empty, as that of a node that was
given up, or it is what a call made of a node of that name that it came to. -/
structure Trusted (context : CompileContext π) (root : Call π) (s : Ledger) : Prop
    extends Sound s where
  explained : ∀ name schema, Table.get? s.definitions name = some schema → schema = [] ∨
    ∃ call node c, Call.Within context root call ∧ call.Enters context node ∧
      Table.get? s.names node.id = some name ∧ call.Makes context s node c ∧ c.schema = schema

section

variable {context : CompileContext π} {root : Call π} {s t : Ledger}

theorem trusted_start (context : CompileContext π) (root : Call π) (supply : Nat) :
    Trusted context root (start supply) :=
  ⟨sound_start supply, fun name schema h => by simp [start] at h⟩

/-- What was an answer stays one when the books grow. -/
theorem Trusted.explained_of_grows (h : Trusted context root s) (grows : Grows s t) {name : String}
    {schema : Json.Fields} (defined : Table.get? s.definitions name = some schema) : schema = [] ∨
      ∃ call node c, Call.Within context root call ∧ call.Enters context node ∧
        Table.get? t.names node.id = some name ∧ call.Makes context t node c ∧
        c.schema = schema := by
  refine (h.explained name schema defined).imp_right ?_
  rintro ⟨call, node, c, within, enters, named, makes, eq⟩
  exact ⟨call, node, c, within, enters, grows.names _ _ named, makes.of_grows grows, eq⟩

theorem Trusted.of_grows (h : Trusted context root s) (grows : Grows s t) (sound : Sound t)
    (same : t.definitions = s.definitions) : Trusted context root t :=
  ⟨sound, fun _ _ defined => h.explained_of_grows grows (same ▸ defined)⟩

theorem Trusted.of_supply_events (h : Trusted context root s) (supply : Nat) (events : List Event) :
    Trusted context root { s with supply, events := events ++ s.events } :=
  h.of_grows (Frame.of_supply_events s supply events).toGrows (h.toSound.of_supply_events _ _) rfl

theorem Trusted.opened (h : Trusted context root s) {ids : List Identity}
    (opened : Opened ids s t) : Trusted context root t :=
  h.of_grows opened.grows (opened.sound h.toSound) opened.definitions

/-- A reference keeps the books. -/
theorem refer_keeps (h : Trusted context root s) {node : Node π} (active : node.id ∈ s.active) :
    Trusted context root (refer context node s).2 ∧ Frame s (refer context node s).2 ∧
      ∃ name bounds, Table.get? (refer context node s).2.names node.id = some name ∧
        (refer context node s).1 = (refSchema name, bounds) := by
  obtain ⟨sound, frame, -, same, name, answer, named⟩ := refer_spec context node h.toSound active
  exact ⟨h.of_grows frame.toGrows sound same, frame, name, _, named, answer⟩

/-- A node that is given up keeps the books. -/
theorem lost_keeps {ids : List Identity} {s t u : Ledger} (opened : Opened ids s t)
    (frame : Frame t u) (h : Trusted context root u) (failure : CompileFailure) :
    Trusted context root (lost ids failure u) ∧ Frame s (lost ids failure u) := by
  obtain ⟨sound, frame'⟩ := sound_lost opened frame h.toSound failure
  refine ⟨⟨sound, fun name schema defined => ?_⟩, frame'⟩
  rcases get?_stored_cases _ defined with before | ⟨id, mem, -⟩
  · exact h.explained_of_grows (grows_lost ids failure u) before
  · obtain ⟨_, -, same⟩ := List.mem_map.1 mem
    exact .inl (congrArg Prod.snd same).symm

end

/-! ### What is stored along a chain -/

/-- The nodes for which schemas are stored along a chain: all that work was started on, except for
one that nobody claims. -/
theorem keys_storedAlong {active ids last : List Identity} {layers : List (PeeledLayer π)}
    {stop : ChainEnd π} (core : Assembly) (all : ids = layers.map (·.node.id) ++ last)
    (lastEntered : LastEntered active last (.ok stop)) :
    (Table.keys (storedAlong layers stop core)).Sublist ids.reverse ∧
      ∀ id ∈ ids, id ∈ Table.keys (storedAlong layers stop core) ∨ stop = .unclaimed := by
  subst all
  rw [List.reverse_append]
  have keys : Table.keys (wrapped layers core) = (layers.map (·.node.id)).reverse :=
    wrapped_map_fst layers core
  cases stop with
  | base base adapter modifier =>
    obtain rfl : last = [base.id] := lastEntered
    refine ⟨?_, fun id mem => .inl ?_⟩
    · rw [storedAlong, Table.keys_cons, keys]
      exact List.Sublist.refl _
    · rw [storedAlong, Table.keys_cons, keys, List.mem_cons, List.mem_reverse]
      rcases List.mem_append.1 mem with mem | mem
      · exact .inr mem
      · exact .inl (List.mem_singleton.1 mem)
  | reentered again =>
    obtain rfl : last = [] := lastEntered.1
    refine ⟨?_, fun id mem => .inl ?_⟩
    · rw [storedAlong, keys]
      exact List.Sublist.refl _
    · rw [storedAlong, keys, List.mem_reverse]
      rwa [List.append_nil] at mem
  | unclaimed =>
    refine ⟨?_, fun _ _ => .inr rfl⟩
    rw [storedAlong, keys]
    exact List.sublist_append_right ..

variable {context : CompileContext π} {node : Node π} {adapter : Adapter π} {s t : Ledger}

/-- What is stored along a chain is stored for nodes that work was started on. -/
theorem Peels.mem_of_storedAlong {layers : List (PeeledLayer π)} {isOptional : Bool}
    {stop : ChainEnd π} {ids : List Identity}
    (peels : Peels context node adapter s layers isOptional (.ok stop) ids t) (core : Assembly) :
    ∀ entry ∈ storedAlong layers stop core, entry.1 ∈ ids := by
  obtain ⟨last, all, lastEntered⟩ := peels.lastEntered
  intro entry mem
  exact List.mem_reverse.1
    ((keys_storedAlong core all lastEntered).1.subset (List.mem_map_of_mem mem))

/-- What is stored along a chain is made of its nodes. -/
theorem builds_of_storedAlong {names : Table Identity String} {limited : Prop}
    {enters : Node π → Prop} {compiles : Node π → NodeSchema → Prop}
    {layers : List (PeeledLayer π)} {isOptional : Bool} {stop : ChainEnd π} {core : Assembly}
    (claimed : (context.registry.resolve node).value = some adapter)
    (unwraps : Unwraps context.registry node adapter layers isOptional (.ok stop))
    (atEnd : AtEnd context names enters compiles stop core)
    {id : Identity} {schema : Json.Fields} (mem : (id, schema) ∈ storedAlong layers stop core) :
    ∃ inner ∈ Chain.nodes layers stop, ∃ c, inner.id = id ∧
      Builds context names limited enters compiles inner c ∧ c.schema = schema := by
  have atLayer (mem : (id, schema) ∈ wrapped layers core) :
      ∃ inner ∈ layers.map (·.node), ∃ c, inner.id = id ∧
        Builds context names limited enters compiles inner c ∧ c.schema = schema := by
    obtain ⟨outer, layer, inner, rfl, rfl, rfl⟩ := mem_wrapped_iff.1 mem
    obtain ⟨c, builds, eq⟩ := Builds.of_layer claimed unwraps atEnd
    exact ⟨layer.node, List.mem_map_of_mem (by simp), c, rfl, builds, eq⟩
  cases stop with
  | base base baseAdapter modifier =>
    rcases List.mem_cons.1 mem with same | mem
    · obtain ⟨rfl, rfl⟩ := Prod.mk.inj same
      obtain ⟨c, builds, eq⟩ := Builds.of_base claimed unwraps atEnd
      exact ⟨base, List.mem_append_right _ (List.mem_singleton_self _), c, rfl, builds, eq⟩
    · obtain ⟨inner, mem, rest⟩ := atLayer mem
      exact ⟨inner, List.mem_append_left _ mem, rest⟩
  | reentered again =>
    obtain ⟨inner, mem, rest⟩ := atLayer mem
    exact ⟨inner, List.mem_append_left _ mem, rest⟩
  | unclaimed => exact atLayer mem

/-- What is stored for the node itself along its chain is its schema. -/
theorem mem_storedAlong_iff {layers : List (PeeledLayer π)} {isOptional : Bool} {stop : ChainEnd π}
    {ids : List Identity} {core : Assembly}
    (peels : Peels context node adapter s layers isOptional (.ok stop) ids t)
    (schema : Json.Fields) : (node.id, schema) ∈ storedAlong layers stop core ↔
      schema = (wrap layers core).schema := by
  obtain ⟨last, all, lastEntered⟩ := peels.lastEntered
  obtain ⟨sublist, -⟩ := keys_storedAlong core all lastEntered
  have distinct : (Table.keys (storedAlong layers stop core)).Nodup :=
    (List.nodup_reverse.2 peels.nodup).sublist sublist
  have stored : (node.id, (wrap layers core).schema) ∈ storedAlong layers stop core := by
    rcases peels.unwraps.head with ⟨modifier, rest, rfl⟩ | ⟨rfl, ⟨modifier, same⟩ | ⟨_, same⟩⟩
    · have atHead : (node.id, (wrap (⟨node, adapter, modifier⟩ :: rest) core).schema) ∈
          wrapped (⟨node, adapter, modifier⟩ :: rest) core :=
        mem_wrapped_iff.2 ⟨[], _, rest, rfl, rfl, rfl⟩
      cases stop with
      | base => exact List.mem_cons_of_mem _ atHead
      | reentered | unclaimed => exact atHead
    · obtain rfl := Except.ok.inj same
      exact List.mem_cons_self
    · cases same
  refine ⟨fun mem => ?_, fun same => same ▸ stored⟩
  have first := Table.get?_of_mem distinct mem
  rw [Table.get?_of_mem distinct stored] at first
  exact (Option.some.inj first).symm

end Compile

namespace Call

variable {context : CompileContext π} {root : Call π}

/-- A call keeps the books: it leaves nodes in progress and their names alone, what it defines comes
from the run, and its answer is made of those of the calls that it makes. -/
def Keeps (context : CompileContext π) (root call : Call π) : Prop :=
  Trusted context root call.books → Trusted context root (call.after context) ∧
    Frame call.books (call.after context) ∧ call.Answers context (call.after context)

/-! ### One call -/

theorem trusted_resolved {call : Call π} (h : Trusted context root call.books) :
    Trusted context root (resolved context call) :=
  h.of_supply_events call.books.supply (context.registry.resolve call.node).events.reverse

theorem frame_resolved (call : Call π) : Frame call.books (resolved context call) :=
  Frame.of_supply_events call.books call.books.supply
    (context.registry.resolve call.node).events.reverse

section Claimed

variable {levels : Nat} {node : Node π} {adapter : Adapter π} {s t : Ledger}
  {layers : List (PeeledLayer π)} {isOptional : Bool} {ids : List Identity}
  (new : node.id ∉ s.active) (claims : (context.registry.resolve node).value = some adapter)
include new claims

/-- The structure of a base keeps the books, and its assembly is made of the answers that the call
gets. -/
theorem structure_keeps {base : Node π} {baseAdapter : Adapter π} {modifier : Option Modifier}
    (peels : Peels context node adapter (resolved context ⟨levels + 1, node, s⟩) layers isOptional
      (.ok (.base base baseAdapter modifier)) ids t)
    (spawned : ∀ inner, Spawns context ⟨levels + 1, node, s⟩ inner → Keeps context root inner)
    (h : Trusted context root (noted base baseAdapter ids t))
    {result : Except CompileFailure Assembly}
    {u : Ledger} (runs : Structure.compile context (Compile.node context levels) base baseAdapter
      (noted base baseAdapter ids t) = (result, u)) :
    Trusted context root u ∧ Frame (noted base baseAdapter ids t) u ∧
      ∀ assembly, result = .ok assembly →
        AtEnd context u.names (Enters context ⟨levels + 1, node, s⟩)
          (Hands context ⟨levels + 1, node, s⟩) (.base base baseAdapter modifier)
          (assembly.addLayer baseAdapter base modifier) := by
  cases seen : baseAdapter.shape? base with
  | none =>
    rw [Structure.compile, seen] at runs
    obtain ⟨rfl, rfl⟩ := Prod.mk.inj runs
    refine ⟨h.of_supply_events _ [_], Frame.of_supply_events _ _ [_], ?_⟩
    rintro assembly ⟨⟩
    exact .shapeless seen
  | some shape =>
    have carried : Structure.carryOut (Compile.node context levels)
        (Structure.ofShape context.options base baseAdapter shape) (noted base baseAdapter ids t) =
          (result, u) := by
      rw [← runs, Structure.compile, seen]
    have part (part : Node π) (v : Ledger) (visits : Visits (Compile.node context levels)
        (Structure.ofShape context.options base baseAdapter shape)
        (noted base baseAdapter ids t) part v) (h : Trusted context root v) :
        Trusted context root (Compile.node context levels part v).2 ∧
          Frame v (Compile.node context levels part v).2 ∧
          Hands context ⟨levels + 1, node, s⟩ part (Compile.node context levels part v).1 := by
      have spawns : Spawns context ⟨levels + 1, node, s⟩ ⟨levels, part, v⟩ :=
        .intro new claims peels seen visits
      obtain ⟨trusted, frame, -⟩ := spawned _ spawns h
      exact ⟨trusted, frame, _, spawns, rfl, rfl⟩
    have spec := @Structure.carryOut_spec π _ _ (Trusted context root) Frame
      (fun part c _ => Hands context ⟨levels + 1, node, s⟩ part c) Frame.refl
      (fun _ _ _ _ => Frame.trans)
      (fun s supply h => ⟨h.of_supply_events supply [], Frame.of_supply_events s supply []⟩)
      (fun _ _ _ _ _ h => h) (Structure.ofShape context.options base baseAdapter shape) _ part h
    rw [carried] at spec
    obtain ⟨trusted, frame, outcome⟩ := spec
    refine ⟨trusted, frame, fun assembly ok => ?_⟩
    rcases outcome with ⟨value, eq, yields⟩ | ⟨error, eq, -⟩
    · obtain rfl := Except.ok.inj (ok.symm.trans eq)
      exact .shaped seen yields
    · cases ok.symm.trans eq

/-- The end of a chain keeps the books. -/
theorem core_keeps {stop : ChainEnd π} {core : Assembly} {u : Ledger}
    (peels : Peels context node adapter (resolved context ⟨levels + 1, node, s⟩) layers isOptional
      (.ok stop) ids t)
    (spawned : ∀ inner, Spawns context ⟨levels + 1, node, s⟩ inner → Keeps context root inner)
    (h : Trusted context root (resolved context ⟨levels + 1, node, s⟩))
    (atEnd : Core context (Compile.node context levels) ids t stop core u) :
    ∃ t', Opened ids (resolved context ⟨levels + 1, node, s⟩) t' ∧ Frame t' u ∧
      Trusted context root u ∧
      AtEnd context u.names (Enters context ⟨levels + 1, node, s⟩)
        (Hands context ⟨levels + 1, node, s⟩) stop core ∧
      (stop = .unclaimed → u = t) := by
  have opened := peels.opened h.toSound
  cases atEnd with
  | @built base baseAdapter modifier assembly _ runs =>
    have opened' := opened.noted (((baseAdapter.shape? base).map Shape.bounds).getD .value)
    obtain ⟨trusted, frame, described⟩ :=
      structure_keeps new claims peels spawned (h.opened opened') runs
    exact ⟨_, opened', frame, trusted, described _ rfl, nofun⟩
  | @looped again =>
    obtain ⟨last, -, -, active⟩ := peels.lastEntered
    obtain ⟨trusted, frame, name, bounds, named, answer⟩ := refer_keeps (h.opened opened) active
    rw [answer]
    have entered : Enters context ⟨levels + 1, node, s⟩ again :=
      .along new claims peels (List.mem_append_right _ (List.mem_singleton_self _))
    exact ⟨t, opened, frame, trusted, .reentered entered named, nofun⟩
  | unclaimed => exact ⟨t, opened, Frame.refl t, h.opened opened, .unclaimed, fun _ => rfl⟩

/-- A call on a claimed node keeps the books if the calls that it makes do. -/
theorem claimed_keeps (within : Within context root ⟨levels + 1, node, s⟩)
    (spawned : ∀ inner, Spawns context ⟨levels + 1, node, s⟩ inner → Keeps context root inner)
    (h : Trusted context root (resolved context ⟨levels + 1, node, s⟩)) {c : NodeSchema}
    {t : Ledger} (outcome : Outcome context (Compile.node context levels) node adapter
      (resolved context ⟨levels + 1, node, s⟩) c t) :
    Trusted context root t ∧ Frame (resolved context ⟨levels + 1, node, s⟩) t ∧
      Makes context t ⟨levels + 1, node, s⟩ node c := by
  cases outcome with
  | @success layers isOptional stop ids t u core peels atEnd =>
    have opened := peels.opened h.toSound
    obtain ⟨last, all, lastEntered⟩ := peels.lastEntered
    obtain ⟨t', opened', frame, trusted, described, idle⟩ :=
      core_keeps new claims peels spawned h atEnd
    obtain ⟨-, covered⟩ := keys_storedAlong core all lastEntered
    have complete : ∀ id ∈ ids, ∀ name, Table.get? u.names id = some name →
        Table.has u.definitions name = true ∨ id ∈ Table.keys (storedAlong layers stop core) := by
      intro id mem name named
      rcases covered id mem with stored | nobody
      · exact .inr stored
      -- Nothing happens between peeling and a node that nobody claims: a name is an old one.
      · obtain rfl := idle nobody
        rw [opened.names] at named
        rw [opened.definitions]
        exact .inl ((h.settled id name named).resolve_left (opened.fresh id mem))
    obtain ⟨sound, frame'⟩ := sound_finished (storedAlong layers stop core) opened' frame
      trusted.toSound (peels.mem_of_storedAlong core) complete
    refine ⟨⟨sound, fun name schema defined => ?_⟩, frame', .whole claims peels.unwraps described⟩
    rcases get?_stored_cases _ defined with before | ⟨id, mem, named⟩
    · exact trusted.explained name schema before
    · obtain ⟨inner, along, c, rfl, builds, eq⟩ :=
        builds_of_storedAlong claims peels.unwraps described mem
      exact .inr ⟨_, inner, c, within, .along new claims peels along, named, builds, eq⟩
  | @givenUp layers isOptional failure ids t peels =>
    have opened := peels.opened h.toSound
    obtain ⟨trusted, frame⟩ := lost_keeps opened (Frame.refl t) (h.opened opened) failure
    refine ⟨trusted, frame, .failed claims peels.unwraps (fun vendor same => ?_) ?_⟩
    · obtain rfl := Except.error.inj same
      exact ⟨_, List.mem_cons_self, rfl⟩
    · rintro _ ⟨⟩
  | @broken layers isOptional base baseAdapter modifier ids t u failure peels runs =>
    have opened := (peels.opened h.toSound).noted
      (((baseAdapter.shape? base).map Shape.bounds).getD .value)
    obtain ⟨trusted, frame, -⟩ := structure_keeps new claims peels spawned (h.opened opened) runs
    obtain ⟨trusted', frame'⟩ := lost_keeps opened frame trusted failure
    refine ⟨trusted', frame', .failed claims peels.unwraps ?_ ?_⟩
    · rintro _ ⟨⟩
    · rintro _ ⟨⟩
      exact ⟨base, baseAdapter, modifier, rfl⟩

end Claimed

/-- The compilation of a node in progress is a reference to it. -/
theorem node_of_active {levels : Nat} {node : Node π} {s : Ledger} (active : node.id ∈ s.active) :
    Compile.node context levels node s =
      (.required (refer context node s).1.1 (refer context node s).1.2,
        (refer context node s).2) := by
  cases levels with
  | zero => exact step_of_active context none active
  | succ levels => exact step_of_active context _ active

/-- A call keeps the books if the calls that it makes do. -/
theorem keeps_of_spawns {call : Call π} (within : Within context root call)
    (spawned : ∀ inner, Spawns context call inner → Keeps context root inner) :
    Keeps context root call := by
  intro h
  cases call.begins context with
  | inProgress active =>
    obtain ⟨trusted, frame, name, bounds, named, answer⟩ := refer_keeps h active
    rw [after, Answers, Call.answer, node_of_active active, answer]
    exact ⟨trusted, frame, .inl ⟨name, bounds, named, rfl⟩⟩
  | @tooDeep node s new =>
    rw [after, Answers, answer, Compile.node, step_none context new]
    exact ⟨h.of_supply_events s.supply [_], Frame.of_supply_events s s.supply [_],
      .inr (.tooDeep ⟨_, List.mem_cons_self, rfl⟩)⟩
  | @unclaimed levels node s new nobody =>
    rw [after, Answers, answer, Compile.node, step_of_unclaimed context new nobody]
    exact ⟨h.of_supply_events s.supply (_ :: _), Frame.of_supply_events s s.supply (_ :: _),
      .inr (.unclaimed nobody)⟩
  | @claimed levels node adapter s new claims =>
    rw [after, Answers, answer, Compile.node, step_of_claimed context new claims]
    obtain ⟨trusted, frame, builds⟩ := claimed_keeps new claims within spawned
      (trusted_resolved h) (claimed_outcome context _ node adapter new)
    exact ⟨trusted, (frame_resolved ⟨levels + 1, node, s⟩).trans frame, .inr builds⟩

/-- Every call of a run keeps the books. -/
theorem keeps {call : Call π} (within : Within context root call) : Keeps context root call := by
  induction call using induct context with
  | step call ih =>
    exact keeps_of_spawns within fun inner spawns => ih inner spawns (within.tail spawns)

end Call

end SchemaBridge
