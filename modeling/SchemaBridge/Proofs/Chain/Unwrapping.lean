import SchemaBridge.Compile.Chain
import SchemaBridge.Proofs.Plan.Outcome

/-!
# Where chains of modifiers end

The layers of a node as its adapters answer for them, told without books: a layer, and a layer
inside it, up to a node without modifier, a node that nobody claims, a node that is in progress, or
a failure. Peeling follows such a chain, starts work on every node that it comes to, and changes
nothing else in the books.

## Main definitions

* `Chain.Unwraps` : the layers of a node from the outside in, and where they end.
* `Chain.LastEntered` : the node that work was started on after the last layer, if any.

## Main results

* `Chain.Unwraps.inside`, `Chain.Unwraps.atBase` : the chains of inner layers.
* `Chain.peel_induct` : induction on the layers that are taken off.
* `Chain.peel_spec` : what peeling takes off, and what it does to the books.
-/

namespace SchemaBridge.Chain

variable {π : Type}

open CompileM Stateful

/-- The layers of a node from the outside in, whether one of them is optional, and where they
end. -/
inductive Unwraps (registry : Registry π) : Node π → Adapter π → List (PeeledLayer π) → Bool →
    Except CompileFailure (ChainEnd π) → Prop where
  /-- The node has no modifier. -/
  | base {node : Node π} {adapter : Adapter π} (plain : adapter.modifier? node = none) :
      Unwraps registry node adapter [] false (.ok (.base node adapter none))
  /-- There is no room for the layer. -/
  | endless {node : Node π} {adapter : Adapter π} {modifier : Modifier}
      (wrapped : adapter.modifier? node = some modifier) :
      Unwraps registry node adapter [] false (.error (.endless adapter.vendor))
  /-- The adapter fails to tell what is inside. -/
  | failed {node : Node π} {adapter : Adapter π} {modifier : Modifier} {error : VendorError}
      (wrapped : adapter.modifier? node = some modifier)
      (fails : Answer.Fails (adapter.inner node) error) :
      Unwraps registry node adapter [] (decide (modifier = .optional)) (.error (.raised error))
  /-- Nothing is inside. -/
  | hollow {node : Node π} {adapter : Adapter π} {modifier : Modifier}
      (wrapped : adapter.modifier? node = some modifier)
      (gives : Answer.Gives (adapter.inner node) none) :
      Unwraps registry node adapter [] (decide (modifier = .optional))
        (.ok (.base node adapter (some modifier)))
  /-- A node in progress is inside. -/
  | reentered {node inner : Node π} {adapter : Adapter π} {modifier : Modifier}
      (wrapped : adapter.modifier? node = some modifier)
      (gives : Answer.Gives (adapter.inner node) (some inner)) :
      Unwraps registry node adapter [⟨node, adapter, modifier⟩] (decide (modifier = .optional))
        (.ok (.reentered inner))
  /-- A node that nobody claims is inside. -/
  | unclaimed {node inner : Node π} {adapter : Adapter π} {modifier : Modifier}
      (wrapped : adapter.modifier? node = some modifier)
      (gives : Answer.Gives (adapter.inner node) (some inner))
      (nobody : (registry.resolve inner).value = none) :
      Unwraps registry node adapter [⟨node, adapter, modifier⟩] (decide (modifier = .optional))
        (.ok .unclaimed)
  /-- Another node is inside. -/
  | layer {node inner : Node π} {adapter next : Adapter π} {modifier : Modifier}
      {layers : List (PeeledLayer π)} {isOptional : Bool}
      {stop : Except CompileFailure (ChainEnd π)}
      (wrapped : adapter.modifier? node = some modifier)
      (gives : Answer.Gives (adapter.inner node) (some inner))
      (claimed : (registry.resolve inner).value = some next)
      (rest : Unwraps registry inner next layers isOptional stop) :
      Unwraps registry node adapter (⟨node, adapter, modifier⟩ :: layers)
        (decide (modifier = .optional) || isOptional) stop

section Unwraps

variable {registry : Registry π} {node : Node π} {adapter : Adapter π} {isOptional : Bool}
  {stop : Except CompileFailure (ChainEnd π)}

/-- The outermost layer is that of the node itself; without layers the chain ends at the node. -/
theorem Unwraps.head {layers : List (PeeledLayer π)}
    (h : Unwraps registry node adapter layers isOptional stop) :
    (∃ modifier rest, layers = ⟨node, adapter, modifier⟩ :: rest) ∨
      layers = [] ∧ ((∃ modifier, stop = .ok (.base node adapter modifier)) ∨
        ∃ failure, stop = .error failure) := by
  cases h with
  | base | hollow => exact .inr ⟨rfl, .inl ⟨_, rfl⟩⟩
  | endless | failed => exact .inr ⟨rfl, .inr ⟨_, rfl⟩⟩
  | reentered | unclaimed | layer => exact .inl ⟨_, _, rfl⟩

/-- What stands inside some layers is unwrapped to the same end. -/
theorem Unwraps.inside {outer inner : List (PeeledLayer π)} {layer : PeeledLayer π}
    (claimed : (registry.resolve node).value = some adapter)
    (h : Unwraps registry node adapter (outer ++ layer :: inner) isOptional stop) :
    ∃ isOptional', Unwraps registry layer.node layer.adapter (layer :: inner) isOptional' stop ∧
      (registry.resolve layer.node).value = some layer.adapter := by
  induction outer generalizing node adapter isOptional with
  | nil =>
    obtain ⟨modifier, rest, same⟩ | ⟨none, _⟩ := h.head
    · obtain ⟨rfl, rfl⟩ := List.cons_eq_cons.1 same
      exact ⟨isOptional, h, claimed⟩
    · cases none
  | cons first outer ih =>
    generalize all : first :: outer ++ layer :: inner = layers at h
    cases h with
    | layer wrapped gives claimed' rest =>
      obtain ⟨_, rfl⟩ := List.cons_eq_cons.1 all
      exact ih claimed' rest
    | reentered | unclaimed => simp at all
    | base | endless | failed | hollow => cases all

/-- The base of a chain is unwrapped to itself. -/
theorem Unwraps.atBase {layers : List (PeeledLayer π)} {base : Node π} {baseAdapter : Adapter π}
    {modifier : Option Modifier} (claimed : (registry.resolve node).value = some adapter)
    (h : Unwraps registry node adapter layers isOptional (.ok (.base base baseAdapter modifier))) :
    ∃ isOptional',
      Unwraps registry base baseAdapter [] isOptional' (.ok (.base base baseAdapter modifier)) ∧
        (registry.resolve base).value = some baseAdapter := by
  generalize atEnd : Except.ok (ChainEnd.base base baseAdapter modifier) = stop at h
  induction h with
  | base plain => cases atEnd; exact ⟨_, .base plain, claimed⟩
  | hollow wrapped gives => cases atEnd; exact ⟨_, .hollow wrapped gives, claimed⟩
  | layer _ _ claimed' _ ih => exact ih claimed' atEnd
  | endless | failed | reentered | unclaimed => cases atEnd

end Unwraps

/-- The nodes that work was started on after the last layer, when the nodes in progress are
`active`: the base, or the node at which peeling was given up; none if a node in progress was met
again. -/
def LastEntered (active : List Identity) (last : List Identity) :
    Except CompileFailure (ChainEnd π) → Prop
  | .ok (.base node _ _) => last = [node.id]
  | .ok (.reentered node) => last = [] ∧ node.id ∈ active
  | .ok .unclaimed | .error _ => ∃ id, last = [id]

/-! ### Peeling, one layer at a time -/

section Peel

variable (context : CompileContext π) (room : Nat) (peeled : Peeled π) {node inner : Node π}
  {adapter next : Adapter π} {modifier : Modifier} {s : Ledger} {supply : Nat}

theorem peel_of_plain (plain : adapter.modifier? node = none) :
    peel context room peeled node adapter s = ((peeled, .ok (.base node adapter none)), s) := by
  cases room <;> simp [peel, plain, pure_apply]

theorem peel_zero (wrapped : adapter.modifier? node = some modifier) :
    peel context 0 peeled node adapter s = ((peeled, .error (.endless adapter.vendor)), s) := by
  simp [peel, wrapped, pure_apply]

variable (wrapped : adapter.modifier? node = some modifier)
include wrapped

theorem peel_of_error {error : VendorError}
    (answer : adapter.inner node s.supply = (.error error, supply)) :
    peel context (room + 1) peeled node adapter s =
      ((noteModifier peeled modifier, .error (.raised error)), { s with supply }) := by
  rw [peel]
  simp only [wrapped]
  rw [bind_apply, run_apply, Ledger.ask_of_error answer]
  rfl

theorem peel_of_hollow (answer : adapter.inner node s.supply = (.ok none, supply)) :
    peel context (room + 1) peeled node adapter s =
      ((noteModifier peeled modifier, .ok (.base node adapter (some modifier))),
        { s with supply }) := by
  rw [peel]
  simp only [wrapped]
  rw [bind_apply, run_apply, Ledger.ask_of_ok answer]
  rfl

theorem peel_of_reentered (answer : adapter.inner node s.supply = (.ok (some inner), supply))
    (again : inner.id ∈ s.active) :
    peel context (room + 1) peeled node adapter s =
      ((push (noteModifier peeled modifier) ⟨node, adapter, modifier⟩, .ok (.reentered inner)),
        { s with supply }) := by
  rw [peel]
  simp only [wrapped]
  rw [bind_apply, run_apply, Ledger.ask_of_ok answer]
  dsimp only
  rw [bind_apply, Ledger.isActive_apply]
  dsimp only
  rw [if_pos (List.contains_iff_mem.2 again)]
  rfl

/-- What has been taken off when work is started on the node inside a layer. -/
def entering (peeled : Peeled π) (layer : PeeledLayer π) (inner : Node π) : Peeled π :=
  { push (noteModifier peeled layer.modifier) layer with
    entered := peeled.entered ++ [inner.id] }

theorem peel_of_unclaimed (answer : adapter.inner node s.supply = (.ok (some inner), supply))
    (new : inner.id ∉ s.active) (nobody : (context.registry.resolve inner).value = none) :
    peel context (room + 1) peeled node adapter s =
      ((entering peeled ⟨node, adapter, modifier⟩ inner, .ok .unclaimed),
        { s with
          active := inner.id :: s.active
          supply
          events := .unclaimedInner inner.typeName ::
            (context.registry.resolve inner).events.reverse ++ s.events }) := by
  rw [peel]
  simp only [wrapped]
  rw [bind_apply, run_apply, Ledger.ask_of_ok answer]
  dsimp only
  rw [bind_apply, Ledger.isActive_apply]
  dsimp only
  rw [if_neg fun h => new (List.contains_iff_mem.1 h), bind_apply, Ledger.beginWork_apply,
    bind_apply, Ledger.resolve_apply]
  simp only [nobody]
  rfl

theorem peel_of_layer (answer : adapter.inner node s.supply = (.ok (some inner), supply))
    (new : inner.id ∉ s.active) (claimed : (context.registry.resolve inner).value = some next) :
    peel context (room + 1) peeled node adapter s =
      peel context room (entering peeled ⟨node, adapter, modifier⟩ inner) inner next
        { s with
          active := inner.id :: s.active
          supply
          events := (context.registry.resolve inner).events.reverse ++ s.events } := by
  rw [peel]
  simp only [wrapped]
  rw [bind_apply, run_apply, Ledger.ask_of_ok answer]
  dsimp only
  rw [bind_apply, Ledger.isActive_apply]
  dsimp only
  rw [if_neg fun h => new (List.contains_iff_mem.1 h), bind_apply, Ledger.beginWork_apply,
    bind_apply, Ledger.resolve_apply]
  simp only [claimed]
  rfl

end Peel

/-- Peeling ends at its node or at what is inside, or goes on there. What holds in each of these
cases, in the last one if it holds of the node inside, holds whatever is peeled. -/
@[elab_as_elim]
theorem peel_induct (context : CompileContext π)
    {motive : Nat → Peeled π → Node π → Adapter π → Ledger → Prop}
    (base : ∀ {room peeled node adapter s}, adapter.modifier? node = none →
      peel context room peeled node adapter s = ((peeled, .ok (.base node adapter none)), s) →
      motive room peeled node adapter s)
    (endless : ∀ {peeled node adapter s modifier}, adapter.modifier? node = some modifier →
      peel context 0 peeled node adapter s = ((peeled, .error (.endless adapter.vendor)), s) →
      motive 0 peeled node adapter s)
    (failed : ∀ {room peeled node adapter s modifier supply error},
      adapter.modifier? node = some modifier →
      adapter.inner node s.supply = (.error error, supply) →
      peel context (room + 1) peeled node adapter s =
        ((noteModifier peeled modifier, .error (.raised error)), { s with supply }) →
      motive (room + 1) peeled node adapter s)
    (hollow : ∀ {room peeled node adapter s modifier supply},
      adapter.modifier? node = some modifier → adapter.inner node s.supply = (.ok none, supply) →
      peel context (room + 1) peeled node adapter s =
        ((noteModifier peeled modifier, .ok (.base node adapter (some modifier))),
          { s with supply }) →
      motive (room + 1) peeled node adapter s)
    (reentered : ∀ {room peeled node inner adapter s modifier supply},
      adapter.modifier? node = some modifier →
      adapter.inner node s.supply = (.ok (some inner), supply) → inner.id ∈ s.active →
      peel context (room + 1) peeled node adapter s =
        ((push (noteModifier peeled modifier) ⟨node, adapter, modifier⟩, .ok (.reentered inner)),
          { s with supply }) →
      motive (room + 1) peeled node adapter s)
    (unclaimed : ∀ {room peeled node inner adapter s modifier supply},
      adapter.modifier? node = some modifier →
      adapter.inner node s.supply = (.ok (some inner), supply) → inner.id ∉ s.active →
      (context.registry.resolve inner).value = none →
      peel context (room + 1) peeled node adapter s =
        ((entering peeled ⟨node, adapter, modifier⟩ inner, .ok .unclaimed),
          { s with
            active := inner.id :: s.active
            supply
            events := .unclaimedInner inner.typeName ::
              (context.registry.resolve inner).events.reverse ++ s.events }) →
      motive (room + 1) peeled node adapter s)
    (layer : ∀ {room peeled node inner adapter next s modifier supply},
      adapter.modifier? node = some modifier →
      adapter.inner node s.supply = (.ok (some inner), supply) → inner.id ∉ s.active →
      (context.registry.resolve inner).value = some next →
      peel context (room + 1) peeled node adapter s =
        peel context room (entering peeled ⟨node, adapter, modifier⟩ inner) inner next
          { s with
            active := inner.id :: s.active
            supply
            events := (context.registry.resolve inner).events.reverse ++ s.events } →
      motive room (entering peeled ⟨node, adapter, modifier⟩ inner) inner next
        { s with
          active := inner.id :: s.active
          supply
          events := (context.registry.resolve inner).events.reverse ++ s.events } →
      motive (room + 1) peeled node adapter s)
    (room : Nat) (peeled : Peeled π) (node : Node π) (adapter : Adapter π) (s : Ledger) :
    motive room peeled node adapter s := by
  induction room generalizing peeled node adapter s with
  | zero =>
    cases wrapped : adapter.modifier? node with
    | none => exact base wrapped (peel_of_plain _ _ _ wrapped)
    | some modifier => exact endless wrapped (peel_zero _ _ wrapped)
  | succ room ih =>
    cases wrapped : adapter.modifier? node with
    | none => exact base wrapped (peel_of_plain _ _ _ wrapped)
    | some modifier =>
      rcases answer : adapter.inner node s.supply with ⟨error | _ | inner, supply⟩
      · exact failed wrapped answer (peel_of_error _ _ _ wrapped answer)
      · exact hollow wrapped answer (peel_of_hollow _ _ _ wrapped answer)
      · by_cases again : inner.id ∈ s.active
        · exact reentered wrapped answer again (peel_of_reentered _ _ _ wrapped answer again)
        · cases claims : (context.registry.resolve inner).value with
          | none =>
            exact unclaimed wrapped answer again claims
              (peel_of_unclaimed _ _ _ wrapped answer again claims)
          | some next =>
            exact layer wrapped answer again claims
              (peel_of_layer _ _ _ wrapped answer again claims) (ih _ _ _ _)

/-- What peeling takes off a node in progress, and what it does to the books: work is started on the
nodes inside, questions are put, and things are reported. -/
theorem peel_spec (context : CompileContext π) (room : Nat) (peeled : Peeled π) (node : Node π)
    (adapter : Adapter π) {s : Ledger} (active : node.id ∈ s.active) :
    ∃ layers isOptional stop more last supply events,
      Unwraps context.registry node adapter layers isOptional stop ∧ layers.length ≤ room ∧
      peel context room peeled node adapter s =
        ((⟨layers.reverse ++ peeled.layers, peeled.entered ++ more,
            peeled.isOptional || isOptional⟩, stop),
          { s with
            active := more.reverse ++ s.active, supply := supply, events := events ++ s.events }) ∧
      more.Nodup ∧ (∀ id ∈ more, id ∉ s.active) ∧
      node.id :: more = layers.map (·.node.id) ++ last ∧
      LastEntered (more.reverse ++ s.active) last stop := by
  induction room, peeled, node, adapter, s using peel_induct context with
  | @base room peeled node adapter s plain runs =>
    exact ⟨[], false, _, [], [node.id], s.supply, [], .base plain, Nat.zero_le _, by simp [runs],
      by simp, by simp, rfl, rfl⟩
  | @endless peeled node adapter s modifier wrapped runs =>
    exact ⟨[], false, _, [], [node.id], s.supply, [], .endless wrapped, Nat.zero_le _,
      by simp [runs], by simp, by simp, rfl, node.id, rfl⟩
  | @failed room peeled node adapter s modifier supply error wrapped answer runs =>
    exact ⟨[], _, _, [], [node.id], supply, [], .failed wrapped ⟨s.supply, by rw [answer]⟩,
      Nat.zero_le _, by simp [runs, noteModifier], by simp, by simp, rfl, node.id, rfl⟩
  | @hollow room peeled node adapter s modifier supply wrapped answer runs =>
    exact ⟨[], _, _, [], [node.id], supply, [], .hollow wrapped ⟨s.supply, by rw [answer]⟩,
      Nat.zero_le _, by simp [runs, noteModifier], by simp, by simp, rfl, rfl⟩
  | @reentered room peeled node inner adapter s modifier supply wrapped answer again runs =>
    exact ⟨[⟨node, adapter, modifier⟩], _, _, [], [], supply, [],
      .reentered wrapped ⟨s.supply, by rw [answer]⟩, by simp, by simp [runs, noteModifier, push],
      by simp, by simp, by simp, rfl, again⟩
  | @unclaimed room peeled node inner adapter s modifier supply wrapped answer new nobody runs =>
    exact ⟨[⟨node, adapter, modifier⟩], _, _, [inner.id], [inner.id], supply,
      .unclaimedInner inner.typeName :: (context.registry.resolve inner).events.reverse,
      .unclaimed wrapped ⟨s.supply, by rw [answer]⟩ nobody, by simp, runs, by simp, by simpa,
      by simp, inner.id, rfl⟩
  | @layer room peeled node inner adapter next s modifier supply wrapped answer new claims
      runs ih =>
    obtain ⟨layers, isOptional, stop, more, last, supply', events, unwraps, short, result, nodup,
      fresh, ids, lastEntered⟩ := ih List.mem_cons_self
    have distinct : inner.id ∉ more := fun h => fresh _ h List.mem_cons_self
    refine ⟨_, _, stop, inner.id :: more, last, supply',
      events ++ (context.registry.resolve inner).events.reverse,
      .layer wrapped ⟨s.supply, by rw [answer]⟩ claims unwraps, Nat.succ_le_succ short, ?_,
      List.nodup_cons.2 ⟨distinct, nodup⟩, ?_, ?_, ?_⟩
    · refine runs.trans (result.trans ?_)
      simp [entering, noteModifier, push, Bool.or_assoc]
    · intro id h
      rcases List.mem_cons.1 h with rfl | h
      · exact new
      · exact fun old => fresh id h (List.mem_cons_of_mem _ old)
    · rw [List.map_cons, List.cons_append, ids]
    · simpa using lastEntered

end SchemaBridge.Chain
