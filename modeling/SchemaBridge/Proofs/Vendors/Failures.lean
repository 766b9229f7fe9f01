import SchemaBridge.Proofs.Compile.Completion
import SchemaBridge.Proofs.Compile.Failures
import SchemaBridge.Proofs.Compile.Shortening
import SchemaBridge.Proofs.Compile.StandIns
import SchemaBridge.Proofs.Describe.Accepting
import SchemaBridge.Proofs.Plain.Simulation
import SchemaBridge.Proofs.Vendors.Built

/-!
# Failures are contained

A node that is given up leaves the books as they were at its call, but for identities that were used
up and for reports. Its chain may fail before anything else is compiled; then only work has been
started and ended. Or the structure of its base fails, perhaps after parts were compiled. A fluent
base never fails, because it holds its parts; and below a description stand only new nodes, so that
no name is given meanwhile. So everything else in the run is what it would be if nobody claimed the
node, or the node inside an optional layer where the chain has taken one off.

## Main definitions

* `StandsIn` : a node that comes to what a node that is given up comes to.

## Main results

* `Chain.Unwraps.isOptional_eq` : a chain is optional if an optional layer has been taken off.
* `Call.Fails.leavesBooks` : the answer of a call that fails, and the books after it.
* `Registry.failures_contained` : the other calls of the run, and the document.
-/

namespace SchemaBridge

open Chain Compile Ledger

variable {γ : Type} {scope : Scope γ} {policy : ClaimPolicy} {options : DocumentOptions}

/-! ### Layers of the vendors at hand -/

section

variable {node : Schema γ} {adapter : Adapter (Payload γ)}
  (claims : ((Registry.standard scope policy).resolve node).value = some adapter)
include claims

/-- Something is inside every modifier, unless it cannot be told what a deferred layer stands
for. -/
theorem Registry.inner_of_modifier {modifier : Modifier}
    (wrapped : adapter.modifier? node = some modifier) (supply : Nat) :
    (∃ inner later, adapter.inner node supply = (.ok (some inner), later)) ∨
      modifier = .deferred ∧ ∃ error later, adapter.inner node supply = (.error error, later) := by
  rcases claimed_cases claims with ⟨rfl, layer, seen⟩ | ⟨rfl, doc, holds⟩
  · have predicate := (Fluent.modifier?_eq_some_iff seen).1 wrapped
    rcases Fluent.inner_adapter scope seen predicate with
      ⟨part, -, always⟩ | ⟨target, isDeferred, always⟩
    · exact .inl ⟨part, supply, always supply⟩
    · rw [always]
      rw [isDeferred] at predicate
      cases (scope.target target supply).1 with
      | ok inner => exact .inl ⟨inner, _, rfl⟩
      | error error => exact .inr ⟨(TypePredicate.modifier.inj predicate).symm, error, _, rfl⟩
  · obtain ⟨inner, peels⟩ := Describe.exists_peel?_of_modifier? holds wrapped
    refine .inl ⟨(Schema.ofDescription inner supply).1, supply + 1, ?_⟩
    change Describe.answer? (do return Describe.peel? (← Describe.documentOf node)) supply = _
    rw [Describe.documentOf, holds]
    change Describe.answer? (.ok (Describe.peel? doc)) supply = _
    rw [peels]
    rfl

theorem Registry.not_gives_none {modifier : Modifier}
    (wrapped : adapter.modifier? node = some modifier) :
    ¬ Answer.Gives (adapter.inner node) none := by
  rintro ⟨supply, gives⟩
  rcases inner_of_modifier claims wrapped supply with
    ⟨inner, later, given⟩ | ⟨-, error, later, fails⟩
  · cases gives.symm.trans (congrArg Prod.fst given)
  · cases gives.symm.trans (congrArg Prod.fst fails)

/-- It can only not be told what is inside a deferred layer. -/
theorem Registry.eq_deferred_of_fails {modifier : Modifier} {error : VendorError}
    (wrapped : adapter.modifier? node = some modifier)
    (fails : Answer.Fails (adapter.inner node) error) : modifier = .deferred := by
  obtain ⟨supply, fails⟩ := fails
  rcases inner_of_modifier claims wrapped supply with ⟨inner, later, given⟩ | ⟨same, -⟩
  · cases fails.symm.trans (congrArg Prod.fst given)
  · exact same

variable {layers : List (PeeledLayer (Payload γ))} {isOptional : Bool}

/-- A chain is optional if an optional layer has been taken off. -/
theorem Chain.Unwraps.isOptional_eq {stop : Except CompileFailure (ChainEnd (Payload γ))}
    (h : Unwraps (.standard scope policy) node adapter layers isOptional stop) :
    isOptional = hasOptional layers := by
  induction h with
  | base | endless => rfl
  | failed wrapped fails =>
    obtain rfl := Registry.eq_deferred_of_fails claims wrapped fails
    rfl
  | hollow wrapped gives => exact absurd gives (Registry.not_gives_none claims wrapped)
  | reentered | unclaimed => exact (Bool.or_false _).symm
  | layer _ _ claims' _ ih => rw [hasOptional, List.any_cons, ih claims', hasOptional]

/-- The base of a chain has no modifier. -/
theorem Chain.Unwraps.plain_base {base : Schema γ} {baseAdapter : Adapter (Payload γ)}
    {modifier : Option Modifier}
    (h : Unwraps (.standard scope policy) node adapter layers isOptional
      (.ok (.base base baseAdapter modifier))) : baseAdapter.modifier? base = none := by
  obtain ⟨claimed, plain | hollow⟩ := h.bare_base claims
  · exact plain
  · cases wrapped : baseAdapter.modifier? base with
    | none => rfl
    | some modifier => exact absurd hollow (Registry.not_gives_none claimed wrapped)

end

/-! ### Structures of the vendors at hand -/

/-- The structure of a fluent base is always put together. -/
theorem Fluent.succeeds_structure (context : CompileContext (Payload γ))
    (child : Schema γ → CompileM NodeSchema) {base : Schema γ} {layer : Layer γ}
    (seen : base.payload = .fluent layer) (plain : (adapter scope).modifier? base = none)
    (s : Ledger) : ∃ assembly t,
      Structure.compile context child base (adapter scope) s = (.ok assembly, t) := by
  obtain ⟨shape, isShape⟩ := (modifier?_eq_none_iff seen).1 plain
  have steady : (adapter scope).Steady base := steady_adapter seen fun target isDeferred => by
    rw [isDeferred] at isShape
    cases isShape
  rw [Structure.compile, (shape?_eq_some_iff seen).2 isShape]
  exact Structure.succeeds_ofShape steady.sure context.options shape s

/-- The structure of a description only uses identities up and reports, because all nodes below it
are new. -/
theorem Describe.structure_agrees (options : DocumentOptions) {base : Schema γ}
    (isDescription : IsDescription base) {adapter : Adapter (Payload γ)}
    (claims : ((Registry.standard scope policy).resolve base).value = some adapter)
    (plain : adapter.modifier? base = none) {s : Ledger} {old : List Identity}
    (active : s.active = base.id :: old) (new : base.id ∉ old)
    (built : ∀ id ∈ s.active, id.index < s.supply) (sound : Sound s) (levels : Nat) :
    Plain.Agrees s
      (Structure.compile ⟨.standard scope policy, options⟩
        (Compile.node ⟨.standard scope policy, options⟩ levels) base adapter s)
      (Plain.structured options (Plain.node ⟨.standard scope policy, options⟩ levels) base adapter
        s.supply) := by
  let context : CompileContext (Payload γ) := ⟨.standard scope policy, options⟩
  let b : Arrival (Payload γ) := ⟨s.supply, base⟩
  have acyclic : Acyclic context b :=
    acyclic_of_anew anew_of_claimed isDescription (built _ (active ▸ List.mem_cons_self))
  have apart : Plain.Apart context b old := by
    intro a reaches mem
    rcases reaches.builtBetween anew_of_claimed isDescription with rfl | later
    · exact new mem
    · exact absurd (built _ (active ▸ List.mem_cons_of_mem _ mem)) (Nat.not_lt_of_le later.lower)
  have atBase : Plain.AtBase context b b old adapter s.supply s.active :=
    ⟨claims, Nat.le_refl _, ⟨[], .start context b, active⟩, .inl plain⟩
  exact Plain.structured_agrees (b := b) acyclic (Plain.node_agrees acyclic apart levels)
    atBase sound

/-! ### Calls that fail -/

namespace Call

variable {root : Schema γ} {supply : Nat} {call : Call (Payload γ)}
  {layers : List (PeeledLayer (Payload γ))}

/-- Where the chain of a call ends, the nodes in progress have been built. -/
theorem Within.built_of_peels (h : scope.Built supply) (built : root.BuiltBy supply)
    (within : Within ⟨.standard scope policy, options⟩ (Registry.rootCall options root supply) call)
    {adapter : Adapter (Payload γ)} {isOptional : Bool}
    {stop : Except CompileFailure (ChainEnd (Payload γ))} {ids : List Identity} {t : Ledger}
    (claims : ((Registry.standard scope policy).resolve call.node).value = some adapter)
    (peels : Peels ⟨.standard scope policy, options⟩ call.node adapter
      (resolved ⟨.standard scope policy, options⟩ call) layers isOptional stop ids t) :
    ∀ id ∈ t.active, id.index < t.supply := by
  have contexts : CompileContext.Mirrors (Scope.Built.nodes γ supply).pairing
      ⟨.standard scope policy, options⟩ ⟨.standard scope policy, options⟩ :=
    ⟨h.mirrors policy, rfl⟩
  have atRoot : (Scope.Built.nodes γ supply).pairing.nodes supply root root :=
    ⟨rfl, Nat.le_refl _, built⟩
  obtain ⟨stage, -, nodes, books⟩ := within.mirrors contexts atRoot
    ⟨.nil, .nil, .nil, rfl, rfl, rfl, ⟨rfl, rfl⟩⟩
  obtain ⟨later, -, books, -⟩ := peels.mirrors contexts claims nodes { books with }
  exact BuiltNodes.lt_supply books

/-- A call that fails leaves nothing behind. -/
theorem Fails.leavesBooks (h : scope.Built supply) (built : root.BuiltBy supply)
    (within : Within ⟨.standard scope policy, options⟩ (Registry.rootCall options root supply) call)
    (fails : Fails ⟨.standard scope policy, options⟩ call layers) :
    LeavesBooks ⟨.standard scope policy, options⟩ call layers := by
  have sound : Sound (resolved ⟨.standard scope policy, options⟩ call) :=
    (trusted_resolved (Within.keeps within (trusted_start _ _ supply)).1).toSound
  obtain ⟨adapter, isOptional, stop, ids, failure, t, u, claims, peels, answers, ending,
    atFailure⟩ := fails.comesTo
  have opened := peels.opened sound
  refine ⟨answers.trans (by rw [peels.unwraps.isOptional_eq claims]), ?_⟩
  suffices left : ∃ supply, ∃ events, lost ids failure u =
      { resolved ⟨.standard scope policy, options⟩ call with
        supply, events := events ++ (resolved ⟨.standard scope policy, options⟩ call).events } by
    obtain ⟨supply, events, same⟩ := left
    exact ⟨supply, _, ending.trans same⟩
  rcases atFailure with rfl | ⟨levels, base, baseAdapter, modifier, rfl, runs⟩
  · exact ⟨u.supply, Plain.lost_of_opened opened sound ⟨[], rfl⟩ failure⟩
  · -- Parts may have been compiled, but none of them has met a node in progress.
    have opened' := opened.noted (((baseAdapter.shape? base).map Shape.bounds).getD .value)
    have plain := peels.unwraps.plain_base claims
    obtain ⟨claimed, -⟩ := peels.unwraps.bare_base claims
    rcases Registry.claimed_cases claimed with ⟨rfl, layer, seen⟩ | ⟨-, isDescription⟩
    · obtain ⟨assembly, v, succeeds⟩ := Fluent.succeeds_structure ⟨.standard scope policy, options⟩
        (Compile.node ⟨.standard scope policy, options⟩ levels) seen plain
        (noted base (Fluent.adapter scope) ids t)
      cases runs.symm.trans succeeds
    · obtain ⟨old, active, new⟩ := peels.active_base
      have lower : ∀ id ∈ t.active, id.index < t.supply :=
        within.built_of_peels h built claims peels
      have agrees := Describe.structure_agrees options (s := noted base baseAdapter ids t)
        isDescription claimed plain active new lower (opened'.sound sound) levels
      have books := agrees.books
      rw [runs] at books
      exact ⟨_, Plain.lost_of_opened opened' sound books failure⟩

end Call

/-! ### Nodes that stand in for those that are given up -/

/-- A node that may stand in for one that is given up: nobody claims it, or an optional layer on
which nothing is set holds a node that nobody claims. The nodes are not in progress. -/
inductive StandsIn (registry : Registry (Payload γ)) (active : List Identity) :
    Bool → Schema γ → Prop where
  | unclaimed {other : Schema γ} (new : other.id ∉ active)
      (nobody : (registry.resolve other).value = none) : StandsIn registry active false other
  | optional {other inner : Schema γ} (seen : other.payload = .fluent { kind := .optional inner })
      (new : other.id ∉ active) (newInside : inner.id ∉ active) (distinct : inner.id ≠ other.id)
      (nobody : (registry.resolve inner).value = none) : StandsIn registry active true other

section

variable {other inner : Schema γ} (seen : other.payload = .fluent { kind := .optional inner })
include seen

theorem Registry.resolve_optional :
    ((standard scope policy).resolve other).value = some (Fluent.adapter scope) := by
  rw [resolve_standard, seen]

/-- Nothing is said by an optional layer on which nothing is set. -/
theorem Fluent.wrap_optional : wrap [⟨other, adapter scope, .optional⟩] .any = .any := by
  obtain ⟨id, typeName, payload⟩ := other
  dsimp only at seen
  subst seen
  rfl

/-- The layer is taken off a node that nobody claims. -/
theorem Fluent.peels_optional {s : Ledger} (room : 0 < options.maxDepth) (new : other.id ∉ s.active)
    (newInside : inner.id ∉ s.active) (distinct : inner.id ≠ other.id)
    (nobody : ((Registry.standard scope policy).resolve inner).value = none) :
    ∃ ids t, Peels ⟨.standard scope policy, options⟩ other (adapter scope) s
      [⟨other, adapter scope, .optional⟩] true (.ok .unclaimed) ids t ∧ t.supply = s.supply := by
  have wrapped : (adapter scope).modifier? other = some .optional :=
    (modifier?_eq_some_iff seen).2 rfl
  have holds : (adapter scope).inner other s.supply = (.ok (some inner), s.supply) := by
    rcases inner_adapter scope seen rfl with ⟨part, nodes, always⟩ | ⟨target, isDeferred, -⟩
    · obtain rfl := List.singleton_inj.1 nodes
      exact always s.supply
    · cases isDeferred
  obtain ⟨room', more⟩ := Nat.exists_eq_add_one.2 room
  have runs := peel_of_unclaimed ⟨.standard scope policy, options⟩ room' ⟨[], [other.id], false⟩
    wrapped (s := (beginWork other s).2) holds
    (List.not_mem_cons_of_ne_of_not_mem distinct newInside) nobody
  rw [← more] at runs
  exact ⟨_, _, peels_of_runs new runs, rfl⟩

end

/-- A node that stands in for one that is given up comes to what that one comes to. -/
theorem StandsIn.step_eq {s : Ledger} {isOptional : Bool} {other : Schema γ}
    (stands : StandsIn (.standard scope policy) s.active isOptional other) (sound : Sound s)
    (room : isOptional = true → 0 < options.maxDepth) (child : Schema γ → CompileM NodeSchema) :
    ∃ events, step ⟨.standard scope policy, options⟩ (some child) other s =
      (⟨[], isOptional, .value⟩, { s with events }) := by
  cases stands with
  | unclaimed new nobody => exact ⟨_, step_of_unclaimed _ new nobody⟩
  | @optional _ inner seen new newInside distinct nobody =>
    have claims :
        ((Registry.standard scope policy).resolve other).value = some (Fluent.adapter scope) :=
      Registry.resolve_optional seen
    let reports := ((Registry.standard scope policy).resolve other).events.reverse
    obtain ⟨ids, t, peels, supply⟩ := Fluent.peels_optional (s := { s with
      events := reports ++ s.events }) seen (room rfl) new newInside distinct nobody
    have sound' := sound.of_supply_events s.supply (reports ++ s.events)
    have result := (claimed_outcome ⟨.standard scope policy, options⟩ child other
      (Fluent.adapter scope) (s := { s with events := reports ++ s.events }) new).concludes peels
    rw [step_of_claimed _ new claims]
    generalize claimed _ child other (Fluent.adapter scope) _ = answered at result ⊢
    obtain ⟨c, u⟩ := answered
    obtain ⟨atEnd⟩ := result
    cases atEnd
    obtain ⟨events, books⟩ := Plain.finished_of_opened (u := t) (peels.opened sound') sound'
      ⟨[], rfl⟩ (peels.mem_of_storedAlong .any)
    rw [supply] at books
    exact ⟨_, Prod.ext (by rw [Fluent.wrap_optional seen]; rfl) books⟩

/-! ### Runs in which nodes are given up -/

namespace Call

/-- Whatever stands in for the node of a call of a run does so for one that is given up, and is
optional if an optional layer has been taken off that node. -/
def StandInsOfFailures (context : CompileContext (Payload γ)) (root : Call (Payload γ))
    (standIn : Call (Payload γ) → Option (Schema γ)) : Prop :=
  ∀ levels node s other, Within context root ⟨levels + 1, node, s⟩ →
    standIn (silent ⟨levels + 1, node, s⟩) = some other → ∃ layers,
      Fails context ⟨levels + 1, node, s⟩ layers ∧
        StandsIn context.registry s.active (hasOptional layers) other

variable {root : Schema γ} {supply : Nat} {standIn : Call (Payload γ) → Option (Schema γ)}

theorem interchangeable_of_failures (h : scope.Built supply) (built : root.BuiltBy supply)
    (ofFailures : StandInsOfFailures ⟨.standard scope policy, options⟩
      (Registry.rootCall options root supply) standIn) :
    Interchangeable ⟨.standard scope policy, options⟩ (Registry.rootCall options root supply)
      standIn := by
  intro levels node s other within isStandIn child events
  obtain ⟨layers, fails, stands⟩ := ofFailures levels node s other within isStandIn
  obtain ⟨answers, supply', events', ending⟩ := fails.leavesBooks h built within
  have sound : Sound s := (Within.keeps within (trusted_start _ _ supply)).1.toSound
  have room : (hasOptional layers) = true → 0 < options.maxDepth := by
    intro some
    obtain ⟨layer, mem, -⟩ := List.any_eq_true.1 some
    obtain ⟨_, _, _, _, _, _, _, -, peels, -⟩ := fails.comesTo
    exact Nat.lt_of_lt_of_le (List.length_pos_of_mem mem) peels.short
  rw [answers, ending]
  exact StandsIn.step_eq (s := { s with supply := supply', events }) stands
    (sound.of_supply_events _ _) room child

end Call

/-- A node that is given up leaves nothing behind: its call answers with the empty schema, optional
if an optional layer has been taken off, and leaves the books as they were, but for identities that
were used up and for reports. So every other call, and the document, are what they are if a node
that nobody claims stands in for it, inside an optional layer if one has been taken off. -/
theorem Registry.failures_contained (policy : ClaimPolicy) (options : DocumentOptions)
    {root : Schema γ} {supply : Nat} (h : scope.Built supply) (built : root.BuiltBy supply) :
    (∀ call layers,
      Call.Within ⟨.standard scope policy, options⟩ (rootCall options root supply) call →
      Call.Fails ⟨.standard scope policy, options⟩ call layers →
      call.LeavesBooks ⟨.standard scope policy, options⟩ layers) ∧
    ∀ standIn, Call.StandInsOfFailures ⟨.standard scope policy, options⟩
        (rootCall options root supply) standIn →
      (∀ call, Call.Within ⟨.standard scope policy, options⟩ (rootCall options root supply) call →
        ∃ events,
          nodeWith ⟨.standard scope policy, options⟩ standIn call.levels call.node call.books =
            (call.answer ⟨.standard scope policy, options⟩,
            { call.after ⟨.standard scope policy, options⟩ with events })) ∧
      (standard scope policy).compileWith options standIn root supply =
        ((standard scope policy).compile options root supply).1.value := by
  refine ⟨fun call layers within fails => fails.leavesBooks h built within, ?_⟩
  intro standIn ofFailures
  have interchangeable := Call.interchangeable_of_failures h built ofFailures
  exact ⟨fun call within => within.with_standIns interchangeable, compileWith_eq interchangeable⟩

/-! ### An entry that is given up -/

namespace Registry

open Call Fluent

/-- An optional layer around a slot that is never defined. -/
def goneEntry : Schema Empty := plainNode 1 (.optional (plainNode 2 (.deferred (.slot "gone"))))

/-- An object with such an entry, and with another one after it. -/
def goneObject : Schema Empty :=
  plainNode 0 (.object [("next", goneEntry), ("name", plainNode 3 .string)])

/-- An optional layer around a node that nobody claims. -/
def goneOther : Schema Empty := plainNode 4 (.optional ⟨⟨5⟩, "foreign", .foreign⟩)

/-- Fluent nodes and descriptions under default options, where no slot is defined. -/
def goneContext : CompileContext (Payload Empty) := ⟨standard slotless .firstMatch, {}⟩

/-- The call for the entry. -/
def goneCall : Call (Payload Empty) :=
  ⟨256, goneEntry,
    noted goneObject (Fluent.adapter slotless) [⟨0⟩] (beginWork goneObject (start 4)).2⟩

/-- The layer that is taken off the entry. -/
def goneLayer : PeeledLayer (Payload Empty) := ⟨goneEntry, Fluent.adapter slotless, .optional⟩

open Classical in
/-- The other layer stands in for the entry. -/
noncomputable def goneStandIn (call : Call (Payload Empty)) : Option (Schema Empty) :=
  if call.node = goneEntry ∧ call.books.active = [⟨0⟩] then some goneOther else none

private theorem within_goneCall : Within goneContext (rootCall {} goneObject 4) goneCall :=
  .single (.intro (t := (beginWork goneObject (start 4)).2) List.not_mem_nil rfl
    ⟨rfl, .base rfl, Nat.zero_le _, List.nodup_singleton _, fun _ _ => List.not_mem_nil, rfl,
      ⟨_, rfl, rfl⟩, ⟨4, [], rfl⟩⟩ rfl (.ask rfl .here))

private theorem fails_goneEntry (levels : Nat) {s : Ledger} (active : s.active = [⟨0⟩]) :
    Fails goneContext ⟨levels + 1, goneEntry, s⟩ [goneLayer] := by
  obtain ⟨_, names, families, used, definitions, nextNumber, supply, events⟩ := s
  obtain rfl := active
  have fresh : ∀ id ∈ [(⟨1⟩ : Identity), ⟨2⟩], id ∉ [(⟨0⟩ : Identity)] := by decide
  exact .givenUp (t := _) (fresh _ List.mem_cons_self) rfl
    ⟨rfl, .layer rfl ⟨0, rfl⟩ rfl (.failed rfl ⟨0, rfl⟩), Nat.le_of_ble_eq_true rfl, by decide,
      fresh, rfl, ⟨_, rfl, ⟨2⟩, rfl⟩, ⟨supply, [], rfl⟩⟩

private theorem standInsOfFailures_gone :
    StandInsOfFailures goneContext (rootCall {} goneObject 4) goneStandIn := by
  intro levels node s other within isStandIn
  have chosen : (node = goneEntry ∧ s.active = [⟨0⟩]) ∧ goneOther = other := by
    unfold goneStandIn at isStandIn
    split at isStandIn
    · exact ⟨‹_›, Option.some.inj isStandIn⟩
    · cases isStandIn
  obtain ⟨⟨same, active⟩, rfl⟩ := chosen
  refine ⟨[goneLayer], same ▸ fails_goneEntry levels active, ?_⟩
  rw [active]
  exact .optional rfl (by decide) (by decide) (by decide) rfl

private theorem goneObject_built : goneObject.BuiltBy 4 := by
  have slot : Schema.BuiltBy 4 (plainNode 2 (.deferred (.slot "gone")) : Schema Empty) :=
    .of_nodes rfl (by decide) (by simp [Kind.nodes])
  have entry : goneEntry.BuiltBy 4 := .of_nodes rfl (by decide) (by simpa [Kind.nodes] using slot)
  have text : Schema.BuiltBy 4 (plainNode 3 .string : Schema Empty) :=
    .of_nodes rfl (by decide) (by simp [Kind.nodes])
  exact .of_nodes rfl (by decide) (by simpa [Kind.nodes] using ⟨entry, text⟩)

/-- The entry is given up and leaves nothing behind. -/
theorem failures_contained_gone : slotless.Built 4 ∧ goneObject.BuiltBy 4 ∧
    Within goneContext (rootCall {} goneObject 4) goneCall ∧
    Fails goneContext goneCall [goneLayer] ∧ goneCall.LeavesBooks goneContext [goneLayer] ∧
      (standard slotless .firstMatch).compileWith {} goneStandIn goneObject 4 =
        ((standard slotless .firstMatch).compile {} goneObject 4).1.value := by
  have built : slotless.Built 4 := ⟨nofun, nofun⟩
  have fails : Fails goneContext goneCall [goneLayer] := fails_goneEntry 255 rfl
  obtain ⟨leaves, standIns⟩ := failures_contained .firstMatch {} built goneObject_built
  exact ⟨built, goneObject_built, within_goneCall, fails,
    leaves goneCall [goneLayer] within_goneCall fails,
    (standIns goneStandIn standInsOfFailures_gone).2⟩

end Registry

end SchemaBridge
