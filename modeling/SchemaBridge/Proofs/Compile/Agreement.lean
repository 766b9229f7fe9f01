import SchemaBridge.Proofs.Compile.Soundness

/-!
# Computations that agree but for reports

What is reported during a compilation is read by nobody, so computations that take the same steps go
on to do so whatever has been reported before. Two compilations of a node take the same steps if the
nodes that they look at have the same adapters, and if the compilations of the parts agree that one
of them makes: it is enough that they do so at the books which these parts are compiled on.

## Main definitions

* `CompileM.AgreesAt` : from some books two computations come to the same but for their reports.
* `Registry.Shares` : a node has the same adapter in two registries.
* `Chain.ComesTo`, `Call.LooksAt` : the nodes that a call looks at.

## Main results

* `CompileM.AgreesAt.bind` : agreement step by step, each step at the books of the one before.
* `Structure.carryOut_agreesAt` : plans agree if the parts that are compiled do.
* `Compile.node_agreesAt` : a call agrees with that over a registry in which the nodes that the run
  looks at have the same adapters.
-/

namespace SchemaBridge

open CompileM Stateful Ledger Compile

variable {π α β : Type}

namespace CompileM

/-- From some books another computation comes to the same value and the same books, whatever has
been reported before; only the reports may differ. -/
def AgreesAt (x y : CompileM α) (s : Ledger) : Prop :=
  ∀ events, ∃ later, y { s with events } = ((x s).1, { (x s).2 with events := later })

theorem agreesAt_pure (a : α) (s : Ledger) : AgreesAt (pure a) (pure a) s :=
  fun events => ⟨events, rfl⟩

theorem AgreesAt.bind {x y : CompileM α} {f g : α → CompileM β} {s : Ledger}
    (first : AgreesAt x y s) (rest : AgreesAt (f (x s).1) (g (x s).1) (x s).2) :
    AgreesAt (x >>= f) (y >>= g) s := by
  intro events
  obtain ⟨between, same⟩ := first events
  obtain ⟨later, same'⟩ := rest between
  refine ⟨later, ?_⟩
  rw [bind_apply, bind_apply, same]
  exact same'

/-- What is read off the books is the same, but for the reports. -/
theorem AgreesAt.get {f g : Ledger → CompileM α} {s : Ledger}
    (h : ∀ events, AgreesAt (f s) (g { s with events }) s) :
    AgreesAt (get >>= f) (get >>= g) s :=
  fun events => h events events

theorem AgreesAt.lift {x y : CompileM α} {s : Ledger} (h : AgreesAt x y s) :
    AgreesAt (ExceptT.lift x : ExceptT CompileFailure CompileM α).run (ExceptT.lift y).run s := by
  change AgreesAt (x >>= fun a => pure (Except.ok a)) (y >>= fun a => pure (Except.ok a)) s
  exact h.bind (agreesAt_pure _ _)

/-- A computation that may fail goes on only if it does not. -/
theorem AgreesAt.bindExcept {x y : ExceptT CompileFailure CompileM α}
    {f g : α → ExceptT CompileFailure CompileM β} {s : Ledger} (first : AgreesAt x.run y.run s)
    (rest : ∀ a, (x.run s).1 = .ok a → AgreesAt (f a).run (g a).run (x.run s).2) :
    AgreesAt (x >>= f).run (y >>= g).run s := by
  change AgreesAt (x.run >>= ExceptT.bindCont f) (y.run >>= ExceptT.bindCont g) s
  refine first.bind ?_
  cases result : (x.run s).1 with
  | ok a => exact rest a result
  | error failure => exact agreesAt_pure (Except.error failure) _

end CompileM

namespace Ledger

variable (s : Ledger)

theorem agreesAt_report (event : Event) : AgreesAt (report event) (report event) s :=
  fun _ => ⟨_, rfl⟩

theorem agreesAt_ask (answer : Answer α) : AgreesAt (ask answer).run (ask answer).run s :=
  fun events => ⟨events, rfl⟩

theorem agreesAt_beginWork (node : Node π) : AgreesAt (beginWork node) (beginWork node) s :=
  fun events => ⟨events, rfl⟩

theorem agreesAt_endWork (ids : List Identity) : AgreesAt (endWork ids) (endWork ids) s :=
  fun events => ⟨events, rfl⟩

theorem agreesAt_noteFamily (family : BoundsFamily) (ids : List Identity) :
    AgreesAt (noteFamily family ids) (noteFamily family ids) s :=
  fun events => ⟨events, rfl⟩

theorem agreesAt_define (id : Identity) (schema : Json.Fields) :
    AgreesAt (define id schema) (define id schema) s :=
  fun events => ⟨events, by rw [define_apply, define_apply]⟩

theorem agreesAt_abandon (ids : List Identity) : AgreesAt (abandon ids) (abandon ids) s :=
  fun events => ⟨events, by rw [abandon_apply, abandon_apply]⟩

end Ledger

/-! ### Nodes that have the same adapters -/

/-- A node has the same adapter in two registries, or in neither. -/
def Registry.Shares (registry other : Registry π) (node : Node π) : Prop :=
  (other.resolve node).value = (registry.resolve node).value

/-- Peeling a node comes to another one: it is inside a layer that is taken off. -/
inductive Chain.ComesTo (context : CompileContext π) :
    Nat → Node π → Adapter π → Ledger → Node π → Prop where
  | here {room : Nat} {node inner : Node π} {adapter : Adapter π} {modifier : Modifier} {s : Ledger}
      {supply : Nat} (wrapped : adapter.modifier? node = some modifier)
      (gives : adapter.inner node s.supply = (.ok (some inner), supply)) :
      ComesTo context (room + 1) node adapter s inner
  | later {room : Nat} {node inner other : Node π} {adapter next : Adapter π} {modifier : Modifier}
      {s : Ledger} {supply : Nat} (wrapped : adapter.modifier? node = some modifier)
      (gives : adapter.inner node s.supply = (.ok (some inner), supply)) (new : inner.id ∉ s.active)
      (claims : (context.registry.resolve inner).value = some next)
      (rest : ComesTo context room inner next
        { s with
          active := inner.id :: s.active
          supply
          events := (context.registry.resolve inner).events.reverse ++ s.events } other) :
      ComesTo context (room + 1) node adapter s other

/-- A call looks at a node: at its own, unless it lies too deep, or at one inside the layers of its
own. -/
inductive Call.LooksAt (context : CompileContext π) : Call π → Node π → Prop where
  | again {call : Call π} (active : call.node.id ∈ call.books.active) :
      LooksAt context call call.node
  | own {levels : Nat} {node : Node π} {s : Ledger} : LooksAt context ⟨levels + 1, node, s⟩ node
  | inside {levels : Nat} {node inner : Node π} {adapter : Adapter π} {s : Ledger}
      (new : node.id ∉ s.active) (claims : (context.registry.resolve node).value = some adapter)
      (comes : Chain.ComesTo context context.options.maxDepth node adapter
        (beginWork node (resolved context ⟨levels + 1, node, s⟩)).2 inner) :
      LooksAt context ⟨levels + 1, node, s⟩ inner

section

variable {registry other : Registry π} (options : DocumentOptions)

namespace Ledger

/-- A node is given to the same adapter. -/
theorem agreesAt_resolve {node : Node π} (shares : registry.Shares other node) (s : Ledger) :
    AgreesAt (resolve ⟨registry, options⟩ node) (resolve ⟨other, options⟩ node) s := by
  intro events
  refine ⟨(other.resolve node).events.reverse ++ events, ?_⟩
  rw [resolve_apply, resolve_apply, shares]

theorem agreesAt_titleName? {node : Node π} (shares : registry.Shares other node) (s : Ledger) :
    AgreesAt (titleName? ⟨registry, options⟩ node) (titleName? ⟨other, options⟩ node) s := by
  unfold titleName?
  dsimp only
  split
  · exact (agreesAt_resolve options shares s).bind (.get fun _ => agreesAt_pure _ _)
  · exact agreesAt_pure _ _

/-- A node gets the same name. -/
theorem agreesAt_nameOf {node : Node π} (shares : registry.Shares other node) (s : Ledger) :
    AgreesAt (nameOf ⟨registry, options⟩ node) (nameOf ⟨other, options⟩ node) s := by
  refine .get fun events => ?_
  dsimp only
  cases Table.get? s.names node.id with
  | some name => exact agreesAt_pure _ _
  | none =>
    have given : AgreesAt (newName ⟨registry, options⟩ node) (newName ⟨other, options⟩ node) s := by
      refine (agreesAt_titleName? options shares s).bind ?_
      cases (titleName? ⟨registry, options⟩ node s).1 with
      | some title => exact agreesAt_pure _ _
      | none => exact fun events => ⟨events, rfl⟩
    exact given.bind (AgreesAt.bind (fun events => ⟨events, rfl⟩) (agreesAt_pure _ _))

theorem agreesAt_refer {node : Node π} (shares : registry.Shares other node) (s : Ledger) :
    AgreesAt (refer ⟨registry, options⟩ node) (refer ⟨other, options⟩ node) s :=
  (agreesAt_nameOf options shares s).bind
    ((agreesAt_report _ _).bind (.get fun _ => agreesAt_pure _ _))

end Ledger

namespace Chain

/-- A node in progress that peeling stops at is one that it comes to. -/
theorem comesTo_of_reentered {context : CompileContext π} {room : Nat} {peeled peeled' : Peeled π}
    {node again : Node π} {adapter : Adapter π} {s t : Ledger}
    (runs : peel context room peeled node adapter s = ((peeled', .ok (.reentered again)), t)) :
    ComesTo context room node adapter s again := by
  induction room, peeled, node, adapter, s using peel_induct context with
  | base _ ends | endless _ ends | failed _ _ ends | hollow _ _ ends | unclaimed _ _ _ _ ends =>
    cases ends.symm.trans runs
  | reentered wrapped answer _ ends =>
    cases ends.symm.trans runs
    exact .here wrapped answer
  | layer wrapped answer new claims onward ih =>
    exact .later wrapped answer new claims (ih (onward.symm.trans runs))

/-- The same layers are taken off a node if all nodes that peeling comes to have the same
adapters. -/
theorem peel_agreesAt (room : Nat) (peeled : Peeled π) {node : Node π} {adapter : Adapter π}
    {s : Ledger} (shares : ∀ inner, ComesTo ⟨registry, options⟩ room node adapter s inner →
      registry.Shares other inner) :
    AgreesAt (peel ⟨registry, options⟩ room peeled node adapter)
      (peel ⟨other, options⟩ room peeled node adapter) s := by
  intro events
  induction room, peeled, node, adapter, s using peel_induct ⟨registry, options⟩
    generalizing events with
  | base plain runs =>
    refine ⟨events, ?_⟩
    rw [runs, peel_of_plain _ _ _ plain]
  | endless wrapped runs =>
    refine ⟨events, ?_⟩
    rw [runs, peel_zero _ _ wrapped]
  | @failed _ _ _ _ s _ _ _ wrapped answer runs =>
    refine ⟨events, ?_⟩
    rw [runs, peel_of_error (s := { s with events }) _ _ _ wrapped answer]
  | @hollow _ _ _ _ s _ _ wrapped answer runs =>
    refine ⟨events, ?_⟩
    rw [runs, peel_of_hollow (s := { s with events }) _ _ _ wrapped answer]
  | @reentered _ _ _ _ _ s _ _ wrapped answer again runs =>
    refine ⟨events, ?_⟩
    rw [runs, peel_of_reentered (s := { s with events }) _ _ _ wrapped answer again]
  | @unclaimed _ _ _ inner _ s _ _ wrapped answer new nobody runs =>
    have same := shares inner (.here wrapped answer)
    refine ⟨.unclaimedInner inner.typeName :: (other.resolve inner).events.reverse ++ events, ?_⟩
    rw [runs, peel_of_unclaimed (s := { s with events }) ⟨other, options⟩ _ _ wrapped answer new
      (same.trans nobody)]
  | @layer _ _ _ inner _ _ s _ _ wrapped answer new claims runs ih =>
    have same := shares inner (.here wrapped answer)
    rw [runs, peel_of_layer (s := { s with events }) ⟨other, options⟩ _ _ wrapped answer new
      (same.trans claims)]
    exact ih (fun inner comes => shares inner (.later wrapped answer new claims comes)) _

end Chain

namespace Structure

/-- Plans are carried out in the same way if the parts that are compiled agree. -/
theorem carryOut_agreesAt {child child' : Node π → CompileM NodeSchema} (plan : Plan π α)
    {s : Ledger}
    (children : ∀ part t, Plan.Visits child plan s part t → AgreesAt (child part) (child' part) t) :
    AgreesAt (carryOut child plan).run (carryOut child' plan).run s := by
  induction plan generalizing s with
  | done value => exact agreesAt_pure (Except.ok value) s
  | ask answer next ih =>
    refine (agreesAt_ask s answer).bindExcept fun given answered => ih given ?_
    refine fun part t visits => children part t (.ask (Prod.ext ?_ rfl) visits)
    change ((answer s.supply).1.mapError _) = _ at answered
    cases result : (answer s.supply).1 with
    | ok value =>
      rw [result] at answered
      exact congrArg _ (Except.ok.inj answered)
    | error error =>
      rw [result] at answered
      cases answered
  | compile part next ih =>
    refine (children part s .here).lift.bindExcept fun c compiled => ?_
    obtain rfl := Except.ok.inj compiled
    exact ih _ fun other t visits => children other t (.later visits)

end Structure

namespace Compile

theorem rewrapAll_agreesAt (assembly : Assembly) (layers : List (PeeledLayer π)) (s : Ledger) :
    AgreesAt (rewrapAll assembly layers) (rewrapAll assembly layers) s := by
  induction layers generalizing assembly s with
  | nil => exact agreesAt_pure _ _
  | cons layer rest ih =>
    have laid : AgreesAt (rewrap assembly layer) (rewrap assembly layer) s :=
      (agreesAt_define s _ _).bind (agreesAt_pure _ _)
    exact laid.bind (ih _ _)

/-- What is put together at the end of a chain is the same if a node in progress there has the
same adapter and the parts of a base agree. -/
theorem core_agreesAt {child child' : Node π → CompileM NodeSchema} (ids : List Identity)
    {s : Ledger} (stop : ChainEnd π)
    (again : ∀ node, stop = .reentered node → registry.Shares other node)
    (children : ∀ base adapter modifier shape part t, stop = .base base adapter modifier →
      adapter.shape? base = some shape →
      Plan.Visits child (Structure.ofShape options base adapter shape) (noted base adapter ids s)
        part t → AgreesAt (child part) (child' part) t) :
    AgreesAt (core ⟨registry, options⟩ child ids stop).run
      (core ⟨other, options⟩ child' ids stop).run s := by
  cases stop with
  | base base adapter modifier =>
    refine (agreesAt_noteFamily s _ ids).lift.bindExcept fun _ _ => ?_
    have built : AgreesAt (Structure.compile ⟨registry, options⟩ child base adapter).run
        (Structure.compile ⟨other, options⟩ child' base adapter).run
        (noted base adapter ids s) := by
      unfold Structure.compile
      cases seen : adapter.shape? base with
      | none => exact (agreesAt_report _ _).lift.bindExcept fun _ _ => agreesAt_pure (Except.ok _) _
      | some shape =>
        exact Structure.carryOut_agreesAt _ fun part t => children _ _ _ shape part t rfl seen
    refine built.bindExcept fun _ _ => ?_
    exact (agreesAt_define _ _ _).lift.bindExcept fun _ _ => agreesAt_pure (Except.ok _) _
  | reentered node =>
    exact (agreesAt_refer options (again node rfl) s).lift.bindExcept fun _ _ =>
      agreesAt_pure (Except.ok _) _
  | unclaimed => exact agreesAt_pure (Except.ok _) _

/-- The compilation of a claimed node agrees if the nodes that peeling comes to have the same
adapters, and the compilations of parts agree. -/
theorem claimed_agreesAt {child child' : Node π → CompileM NodeSchema} {n : Node π}
    {adapter : Adapter π} {s : Ledger} (new : n.id ∉ s.active)
    (along : ∀ inner, Chain.ComesTo ⟨registry, options⟩ options.maxDepth n adapter
      (beginWork n s).2 inner → registry.Shares other inner)
    (children : ∀ layers isOptional base baseAdapter modifier ids t shape part u,
      Peels ⟨registry, options⟩ n adapter s layers isOptional
        (.ok (.base base baseAdapter modifier)) ids t → baseAdapter.shape? base = some shape →
      Plan.Visits child (Structure.ofShape options base baseAdapter shape)
        (noted base baseAdapter ids t) part u → AgreesAt (child part) (child' part) u) :
    AgreesAt (claimed ⟨registry, options⟩ child n adapter)
      (claimed ⟨other, options⟩ child' n adapter) s := by
  obtain ⟨layers, isOptional, stop, ids, t, peels⟩ :=
    peels_of_peel ⟨registry, options⟩ n adapter new
  have runs := peels.runs
  refine (agreesAt_beginWork s n).bind ((Chain.peel_agreesAt options _ _ along).bind ?_)
  have finished : AgreesAt
      (finish ⟨registry, options⟩ child ⟨layers.reverse, ids, isOptional⟩ stop).run
      (finish ⟨other, options⟩ child' ⟨layers.reverse, ids, isOptional⟩ stop).run t := by
    cases stop with
    | error failure => exact agreesAt_pure (Except.error failure) t
    | ok stop =>
      refine (core_agreesAt options ids stop ?_ ?_).bindExcept fun _ _ =>
        (rewrapAll_agreesAt _ _ _).lift
      · rintro again rfl
        exact along again (Chain.comesTo_of_reentered runs)
      · rintro base baseAdapter modifier shape part u rfl seen visits
        exact children _ _ _ _ _ _ _ shape part u peels seen visits
  rw [runs]
  refine finished.bind ((agreesAt_endWork _ _).bind ?_)
  cases ((finish ⟨registry, options⟩ child ⟨layers.reverse, ids, isOptional⟩ stop).run t).1 with
  | ok assembly => exact agreesAt_pure _ _
  | error failure =>
    refine (agreesAt_report _ _).bind (AgreesAt.bind (agreesAt_abandon _ _) ?_)
    exact agreesAt_pure _ _

section Step

variable {n : Node π} {s : Ledger}

theorem step_none_agreesAt (own : n.id ∈ s.active → registry.Shares other n) :
    AgreesAt (step ⟨registry, options⟩ none n) (step ⟨other, options⟩ none n) s := by
  intro events
  by_cases active : n.id ∈ s.active
  · obtain ⟨later, same⟩ := agreesAt_refer options (own active) s events
    refine ⟨later, ?_⟩
    rw [step_of_active _ _ active, step_of_active (s := { s with events }) _ _ active, same]
  · exact ⟨_, by rw [step_none _ active, step_none (s := { s with events }) _ active]⟩

/-- The compilation of a node agrees if the nodes that it looks at have the same adapters, and the
compilations of parts agree at the books on which they are compiled. -/
theorem step_agreesAt {child child' : Node π → CompileM NodeSchema} (own : registry.Shares other n)
    (along : ∀ adapter, n.id ∉ s.active → (registry.resolve n).value = some adapter →
      ∀ inner, Chain.ComesTo ⟨registry, options⟩ options.maxDepth n adapter
        (beginWork n (resolve ⟨registry, options⟩ n s).2).2 inner → registry.Shares other inner)
    (children : ∀ adapter, n.id ∉ s.active → (registry.resolve n).value = some adapter →
      ∀ layers isOptional base baseAdapter modifier ids t shape part u,
        Peels ⟨registry, options⟩ n adapter (resolve ⟨registry, options⟩ n s).2 layers isOptional
          (.ok (.base base baseAdapter modifier)) ids t → baseAdapter.shape? base = some shape →
        Plan.Visits child (Structure.ofShape options base baseAdapter shape)
          (noted base baseAdapter ids t) part u → AgreesAt (child part) (child' part) u) :
    AgreesAt (step ⟨registry, options⟩ (some child) n)
      (step ⟨other, options⟩ (some child') n) s := by
  intro events
  by_cases active : n.id ∈ s.active
  · obtain ⟨later, same⟩ := agreesAt_refer options own s events
    refine ⟨later, ?_⟩
    rw [step_of_active _ _ active, step_of_active (s := { s with events }) _ _ active, same]
  · cases claims : (registry.resolve n).value with
    | none =>
      refine ⟨.unclaimed n.typeName :: (other.resolve n).events.reverse ++ events, ?_⟩
      rw [step_of_unclaimed _ active claims,
        step_of_unclaimed (s := { s with events }) ⟨other, options⟩ active (own.trans claims)]
    | some adapter =>
      obtain ⟨later, same⟩ := claimed_agreesAt options
        (s := (resolve ⟨registry, options⟩ n s).2) active (along adapter active claims)
        (children adapter active claims) ((other.resolve n).events.reverse ++ events)
      refine ⟨later, ?_⟩
      rw [step_of_claimed _ active claims,
        step_of_claimed (s := { s with events }) ⟨other, options⟩ active (own.trans claims)]
      exact same

end Step

/-- A call agrees with that over another registry if all nodes that it looks at, and that the calls
which it makes look at, have the same adapters. -/
theorem node_agreesAt (levels : Nat) {n : Node π} {s : Ledger}
    (shares : ∀ call, Call.Within ⟨registry, options⟩ ⟨levels, n, s⟩ call →
      ∀ inner, call.LooksAt ⟨registry, options⟩ inner → registry.Shares other inner) :
    AgreesAt (node ⟨registry, options⟩ levels n) (node ⟨other, options⟩ levels n) s := by
  induction levels generalizing n s with
  | zero => exact step_none_agreesAt options fun active => shares _ .refl n (.again active)
  | succ levels ih =>
    refine step_agreesAt options (shares _ .refl n .own)
      (fun adapter new claims inner comes => shares _ .refl inner (.inside new claims comes)) ?_
    intro adapter new claims layers isOptional base baseAdapter modifier ids t shape part u peels
      shaped visits
    exact ih fun call within => shares call (.head (.intro new claims peels shaped visits) within)

end Compile

end

end SchemaBridge
