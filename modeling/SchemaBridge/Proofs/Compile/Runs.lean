import SchemaBridge.Proofs.Compile.Soundness

/-!
# What lasts in a run

Everything that is entered into the books by the start or by the end of a call is still there when
the whole run ends. So names that are given and definitions that are stored during a run are those
of its end.

## Main results

* `Call.concludes` : how a call goes on, by how the layers of its node were peeled off.
* `Call.exists_peels` : a call on a claimed node that reaches no limit gets to the end of its chain.
* `Call.answer_of_core` : what a call answers, by what is at the end of its chain.
* `Call.Within.keeps` : the books at a call, and what of them is left at the end of the run.
* `Call.Within.answers` : what a call answers, by the names at the end of the run.
* `Call.defines` : the definition of a node that is named during a call on it.
* `Call.named_of_meets` : a node that is met again has a name.
-/

namespace SchemaBridge.Call

open Chain Ledger Compile Plan

variable {π : Type} {context : CompileContext π} {root : Call π}

/-! ### The books at a call -/

/-- The call on a claimed node goes in one of the ways in which compilation can go. -/
theorem outcome {levels : Nat} {node : Node π} {adapter : Adapter π} {s : Ledger}
    (new : node.id ∉ s.active) (claims : (context.registry.resolve node).value = some adapter) :
    Outcome context (Compile.node context levels) node adapter
      (resolved context ⟨levels + 1, node, s⟩) (answer context ⟨levels + 1, node, s⟩)
      (after context ⟨levels + 1, node, s⟩) := by
  have result : Compile.node context (levels + 1) node s = claimed context
      (Compile.node context levels) node adapter (resolved context ⟨levels + 1, node, s⟩) :=
    step_of_claimed context new claims
  rw [answer, after, result]
  exact claimed_outcome context _ node adapter new

section Concludes

variable {levels : Nat} {node : Node π} {adapter : Adapter π} {layers : List (PeeledLayer π)}
  {isOptional : Bool} {stop : ChainEnd π} {ids : List Identity} {s t u : Ledger} {core : Assembly}
  (new : node.id ∉ s.active) (claims : (context.registry.resolve node).value = some adapter)
include new claims

/-- The call on a claimed node goes on as the peeling of the node has led to. -/
theorem concludes {result : Except CompileFailure (ChainEnd π)}
    (peels : Peels context node adapter (resolved context ⟨levels + 1, node, s⟩) layers isOptional
      result ids t) :
    Concludes context (Compile.node context levels) layers isOptional ids t result
      (answer context ⟨levels + 1, node, s⟩) (after context ⟨levels + 1, node, s⟩) :=
  (outcome new claims).concludes peels

/-- What is at the end of the chain of a call determines its answer. -/
theorem answer_of_core
    (peels : Peels context node adapter (resolved context ⟨levels + 1, node, s⟩) layers isOptional
      (.ok stop) ids t)
    (atEnd : Core context (Compile.node context levels) ids t stop core u) :
    answer context ⟨levels + 1, node, s⟩ =
      ⟨(wrap layers core).schema, isOptional, (wrap layers core).bounds⟩ := by
  have result := concludes new claims peels
  generalize answer context ⟨levels + 1, node, s⟩ = c, after context ⟨levels + 1, node, s⟩ = v
    at result ⊢
  cases atEnd with
  | built runs =>
    cases result with
    | success atEnd' =>
      cases atEnd' with
      | built runs' =>
        obtain rfl := Except.ok.inj (Prod.mk.inj (runs.symm.trans runs')).1
        rfl
    | broken runs' => cases (Prod.mk.inj (runs.symm.trans runs')).1
  | looped | unclaimed =>
    obtain ⟨atEnd'⟩ := result
    cases atEnd'
    rfl

/-- What is in the books when the structure of a base has been compiled is there at the end of the
call. -/
theorem grows_of_peels {base : Node π} {baseAdapter : Adapter π} {modifier : Option Modifier}
    (peels : Peels context node adapter (resolved context ⟨levels + 1, node, s⟩) layers isOptional
      (.ok (.base base baseAdapter modifier)) ids t) :
    Grows (Structure.compile context (Compile.node context levels) base baseAdapter
      (noted base baseAdapter ids t)).2 (after context ⟨levels + 1, node, s⟩) := by
  have result := concludes new claims peels
  generalize answer context ⟨levels + 1, node, s⟩ = c, after context ⟨levels + 1, node, s⟩ = u
    at result ⊢
  cases result with
  | success atEnd =>
    cases atEnd with
    | built runs =>
      rw [runs]
      exact grows_finished _ _ _
  | broken runs =>
    rw [runs]
    exact grows_lost _ _ _

/-- A chain that takes up all the room is reported. -/
theorem limited_of_endless {vendor : String}
    (peels : Peels context node adapter (resolved context ⟨levels + 1, node, s⟩) layers isOptional
      (.error (.endless vendor)) ids t) : (after context ⟨levels + 1, node, s⟩).Limited := by
  have result := concludes new claims peels
  generalize answer context ⟨levels + 1, node, s⟩ = c, after context ⟨levels + 1, node, s⟩ = u
    at result ⊢
  cases result
  exact ⟨_, List.mem_cons_self, rfl⟩

end Concludes

/-- A node beyond the last level is reported. -/
theorem limited_of_tooDeep {node : Node π} {s : Ledger} (new : node.id ∉ s.active) :
    (after context ⟨0, node, s⟩).Limited := by
  rw [after, Compile.node, step_none context new]
  exact ⟨_, List.mem_cons_self, rfl⟩

/-- A call on a claimed node that is not in progress peels off its layers, and comes to the end of
its chain, unless it reaches a limit. -/
theorem exists_peels {call : Call π} {adapter : Adapter π}
    (new : call.node.id ∉ call.books.active)
    (claims : (context.registry.resolve call.node).value = some adapter)
    (unlimited : ¬ (after context call).Limited) :
    ∃ levels node s, call = ⟨levels + 1, node, s⟩ ∧
      ∃ layers isOptional stop ids t, Peels context node adapter
        (resolved context ⟨levels + 1, node, s⟩) layers isOptional stop ids t ∧
          ∀ vendor, stop ≠ .error (.endless vendor) := by
  obtain ⟨levels, node, s⟩ := call
  cases levels with
  | zero => exact absurd (limited_of_tooDeep new) unlimited
  | succ levels =>
    obtain ⟨layers, isOptional, stop, ids, t, peels⟩ := @peels_of_peel π context node adapter
      (resolved context ⟨levels + 1, node, s⟩) new
    refine ⟨levels, node, s, rfl, layers, isOptional, stop, ids, t, peels, ?_⟩
    rintro vendor rfl
    exact unlimited (limited_of_endless new claims peels)

/-- The layers of the node of a call can only be peeled off in one way, down to one base. -/
theorem peels_base_unique {levels : Nat} {node base base' : Node π}
    {adapter adapter' baseAdapter baseAdapter' : Adapter π} {layers layers' : List (PeeledLayer π)}
    {isOptional isOptional' : Bool} {modifier modifier' : Option Modifier}
    {ids ids' : List Identity} {s t t' : Ledger}
    (claims : (context.registry.resolve node).value = some adapter)
    (peels : Peels context node adapter (resolved context ⟨levels + 1, node, s⟩) layers isOptional
      (.ok (.base base baseAdapter modifier)) ids t)
    (claims' : (context.registry.resolve node).value = some adapter')
    (peels' : Peels context node adapter' (resolved context ⟨levels + 1, node, s⟩) layers'
      isOptional' (.ok (.base base' baseAdapter' modifier')) ids' t') :
    adapter = adapter' ∧ layers = layers' ∧ base = base' ∧ baseAdapter = baseAdapter' ∧
      modifier = modifier' ∧ ids = ids' ∧ t = t' := by
  obtain rfl := Option.some.inj (claims.symm.trans claims')
  obtain ⟨sameLayers, -, same, sameIds, books⟩ := peels.unique peels'
  obtain ⟨sameBase, sameAdapter, sameModifier⟩ := ChainEnd.base.inj (Except.ok.inj same)
  exact ⟨rfl, sameLayers, sameBase, sameAdapter, sameModifier, sameIds, books⟩

/-- The books at a call, and what of them is left when the call that makes it ends. -/
theorem Spawns.keeps {outer inner : Call π} (h : Spawns context outer inner)
    (within : Within context root outer) (trusted : Trusted context root outer.books) :
    Trusted context root inner.books ∧ Grows outer.books inner.books ∧
      Grows (after context inner) (after context outer) := by
  obtain ⟨new, claims, peels, seen, visits⟩ := h
  rename_i levels node base part adapter baseAdapter layers isOptional modifier ids shape s t u
  have atStart := trusted_resolved trusted
  have opened := (peels.opened atStart.toSound).noted
    (((baseAdapter.shape? base).map Shape.bounds).getD .value)
  obtain ⟨trusted', before, rest⟩ := Structure.later_of_visits Frame.refl
    (fun _ _ _ _ => Frame.trans)
    (fun s supply h => ⟨h.of_supply_events supply [], Frame.of_supply_events s supply []⟩)
    (fun part v visits h => by
      have kept := Call.keeps (within.tail (.intro new claims peels seen visits)) h
      exact ⟨kept.1, kept.2.1⟩)
    (atStart.opened opened) visits
  have carried : Structure.compile context (Compile.node context levels) base baseAdapter
      (noted base baseAdapter ids t) = Structure.carryOut (Compile.node context levels)
        (Structure.ofShape context.options base baseAdapter shape)
        (noted base baseAdapter ids t) := by
    rw [Structure.compile, seen]
  refine ⟨trusted', (frame_resolved ⟨levels + 1, node, s⟩).toGrows.trans
    (opened.grows.trans before.toGrows), ?_⟩
  have ending := grows_of_peels new claims peels
  rw [carried] at ending
  exact rest.toGrows.trans ending

/-- The books at a call, and what of them is left at the end of the run. -/
theorem Within.keeps {call : Call π} (h : Within context root call)
    (trusted : Trusted context root root.books) :
    Trusted context root call.books ∧ Grows root.books call.books ∧
      Grows (after context call) (after context root) := by
  induction h with
  | refl => exact ⟨trusted, Grows.refl _, Grows.refl _⟩
  | tail within last ih =>
    obtain ⟨trusted', before, rest⟩ := ih
    obtain ⟨trusted'', before', rest'⟩ := last.keeps within trusted'
    exact ⟨trusted'', before.trans before', rest'.trans rest⟩

/-- What a call answers, by the names at the end of the run. -/
theorem Within.answers {call : Call π} (h : Within context root call)
    (trusted : Trusted context root root.books) :
    call.Answers context (after context root) := by
  obtain ⟨atCall, -, rest⟩ := h.keeps trusted
  exact (Call.keeps h atCall).2.2.of_grows rest

/-! ### Names and definitions -/

/-- A call on a node in progress answers with a reference to it. -/
theorem answer_of_active {call : Call π} (trusted : Trusted context root call.books)
    (active : call.node.id ∈ call.books.active) :
    ∃ name, Table.get? (after context call).names call.node.id = some name ∧
      (answer context call).schema = refSchema name := by
  obtain ⟨levels, node, s⟩ := call
  obtain ⟨-, -, name, bounds, named, reference⟩ := refer_keeps trusted active
  have result := @node_of_active π context levels node s active
  refine ⟨name, ?_, ?_⟩
  · rw [after, result]
    exact named
  · rw [answer, result, reference]
    rfl

/-- A claimed node that gets its name during a call on it gets the answer as definition. -/
theorem defines_of_claimed {levels : Nat} {node : Node π} {adapter : Adapter π} {s : Ledger}
    (within : Within context root ⟨levels + 1, node, s⟩)
    (new : node.id ∉ s.active) (claims : (context.registry.resolve node).value = some adapter)
    (h : Trusted context root (resolved context ⟨levels + 1, node, s⟩)) {c : NodeSchema}
    {t : Ledger} (outcome : Outcome context (Compile.node context levels) node adapter
      (resolved context ⟨levels + 1, node, s⟩) c t) {name : String}
    (unnamed : Table.get? s.names node.id = none) (named : Table.get? t.names node.id = some name) :
    Table.get? t.definitions name = some c.schema := by
  have spawned (inner : Call π) (spawns : Spawns context ⟨levels + 1, node, s⟩ inner) :
      Keeps context root inner := Call.keeps (within.tail spawns)
  cases outcome with
  | @success layers isOptional stop ids t u core peels atEnd =>
    obtain ⟨t', opened', frame, trusted, -, -⟩ := core_keeps new claims peels spawned h atEnd
    exact get?_finished _ opened' frame trusted.toSound (List.mem_of_mem_head? peels.head) unnamed
      named ((mem_storedAlong_iff peels _).2 rfl) fun other => (mem_storedAlong_iff peels other).1
  | @givenUp layers isOptional failure ids t peels =>
    have opened := peels.opened h.toSound
    have mem := List.mem_of_mem_head? peels.head
    exact get?_finished _ opened (Frame.refl t) (opened.sound h.toSound) mem unnamed named
      (List.mem_map_of_mem mem) (by simp)
  | @broken layers isOptional base baseAdapter modifier ids t u failure peels runs =>
    have opened := (peels.opened h.toSound).noted
      (((baseAdapter.shape? base).map Shape.bounds).getD .value)
    obtain ⟨trusted, frame, -⟩ := structure_keeps new claims peels spawned (h.opened opened) runs
    have mem := List.mem_of_mem_head? peels.head
    exact get?_finished _ opened frame trusted.toSound mem unnamed named
      (List.mem_map_of_mem mem) (by simp)

/-- A node that gets its name during a call on it gets the answer as definition. -/
theorem defines {call : Call π} (within : Within context root call)
    (trusted : Trusted context root call.books) (new : call.node.id ∉ call.books.active)
    {name : String} (unnamed : Table.get? call.books.names call.node.id = none)
    (named : Table.get? (after context call).names call.node.id = some name) :
    Table.get? (after context call).definitions name = some (answer context call).schema := by
  cases call.begins context with
  | inProgress active => exact absurd active new
  | tooDeep =>
    rw [after, Compile.node, step_none context new] at named
    rw [unnamed] at named
    cases named
  | unclaimed _ nobody =>
    rw [after, Compile.node, step_of_unclaimed context new nobody] at named
    rw [unnamed] at named
    cases named
  | claimed _ claims =>
    exact defines_of_claimed within new claims (trusted_resolved trusted) (outcome new claims)
      unnamed named

/-- A node that a call comes upon while it is in progress has a name after the call. -/
theorem named_of_meets {id : Identity} {call : Call π} (h : Meets context id call)
    (trusted : Trusted context root call.books) :
    ∃ name, Table.get? (after context call).names id = some name := by
  cases h with
  | here same active =>
    subst same
    obtain ⟨name, named, -⟩ := answer_of_active trusted active
    exact ⟨name, named⟩
  | @inside levels node again adapter s t layers isOptional ids new claims peels same =>
    subst same
    have atStart := trusted_resolved trusted
    have opened := peels.opened atStart.toSound
    obtain ⟨last, -, -, active⟩ := peels.lastEntered
    obtain ⟨-, -, name, -, named, -⟩ := refer_keeps (atStart.opened opened) active
    refine ⟨name, ?_⟩
    have result := concludes new claims peels
    generalize answer context ⟨levels + 1, node, s⟩ = c, after context ⟨levels + 1, node, s⟩ = u
      at result ⊢
    obtain ⟨atEnd⟩ := result
    cases atEnd
    exact named

end SchemaBridge.Call
