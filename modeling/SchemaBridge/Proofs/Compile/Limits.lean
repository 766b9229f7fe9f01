import SchemaBridge.Proofs.Compile.References

/-!
# The depth limit as a safety net

A run that reaches no limit does not depend on the limit: with more levels of nodes and longer
chains allowed it takes the same steps, gives out the same names and writes the same document. What
is cut off is always reported, and a report is never taken back, so the hypothesis is a property of
the books at the end of the run.

## Main definitions

* `CompileM.SettledBy` : a computation that reaches no limit does what another one does.

## Main results

* `Chain.peel_deepened` : peeling with more room, unless the room was all taken up.
* `Compile.node_deepened` : a node that is compiled with more levels.
* `Registry.compile_eq_of_unlimited` : a larger limit gives the same document, reports and supply.
-/

namespace SchemaBridge

open CompileM Stateful

variable {π α β : Type}

/-! ### Computations that reach no limit -/

/-- Later reports do not hide that a limit was reached. -/
theorem Ledger.Limited.of_events {s t : Ledger} {events : List Event} (h : s.Limited)
    (same : t.events = events ++ s.events) : t.Limited := by
  obtain ⟨event, mem, reaches⟩ := h
  exact ⟨event, same ▸ List.mem_append_right _ mem, reaches⟩

namespace CompileM

/-- From books at which a computation ends without having reached a limit, another one does the
same; the limit was not reached before either. -/
def SettledBy (x y : CompileM α) : Prop :=
  ∀ s, ¬ (x s).2.Limited → ¬ s.Limited ∧ y s = x s

/-- A computation that takes no report back is settled by itself. -/
theorem settled_of_events {x : CompileM α}
    (h : ∀ s, ∃ events, (x s).2.events = events ++ s.events) :
    SettledBy x x := fun s unlimited =>
  have ⟨_, same⟩ := h s
  ⟨fun limited => unlimited (limited.of_events same), rfl⟩

theorem settled_pure (a : α) : SettledBy (pure a) (pure a) := settled_of_events fun _ => ⟨[], rfl⟩

theorem SettledBy.bind {x y : CompileM α} {f g : α → CompileM β} (first : SettledBy x y)
    (rest : ∀ a, SettledBy (f a) (g a)) : SettledBy (x >>= f) (y >>= g) := by
  intro s unlimited
  rw [bind_apply] at unlimited
  obtain ⟨before, same⟩ := rest _ _ unlimited
  obtain ⟨before', same'⟩ := first s before
  refine ⟨before', ?_⟩
  rw [bind_apply, bind_apply, same', same]

theorem SettledBy.lift {x y : CompileM α} (h : SettledBy x y) :
    SettledBy (ExceptT.lift x : ExceptT CompileFailure CompileM α).run (ExceptT.lift y).run :=
  SettledBy.bind h fun a => settled_pure (Except.ok a)

/-- A computation that may fail goes on only if it does not. -/
theorem SettledBy.bindExcept {x y : ExceptT CompileFailure CompileM α}
    {f g : α → ExceptT CompileFailure CompileM β} (first : SettledBy x.run y.run)
    (rest : ∀ a, SettledBy (f a).run (g a).run) : SettledBy (x >>= f).run (y >>= g).run := by
  change SettledBy (x.run >>= ExceptT.bindCont f) (y.run >>= ExceptT.bindCont g)
  refine first.bind fun result => ?_
  cases result with
  | ok a => exact rest a
  | error failure => exact settled_pure (Except.error failure)

end CompileM

namespace Ledger

variable (context : CompileContext π) (node : Node π)

theorem settled_resolve : SettledBy (resolve context node) (resolve context node) :=
  settled_of_events fun _ => ⟨_, rfl⟩

theorem settled_report (event : Event) : SettledBy (report event) (report event) :=
  settled_of_events fun _ => ⟨[event], rfl⟩

theorem settled_ask (answer : Answer α) :
    SettledBy (ask answer).run (ask answer).run :=
  settled_of_events fun _ => ⟨[], rfl⟩

theorem settled_define (id : Identity) (schema : Json.Fields) :
    SettledBy (define id schema) (define id schema) :=
  settled_of_events fun s => ⟨[], by rw [define_apply]; rfl⟩

theorem settled_abandon (ids : List Identity) : SettledBy (abandon ids) (abandon ids) :=
  settled_of_events fun s => ⟨[], by rw [abandon_apply]; rfl⟩

theorem settled_nameOf : SettledBy (nameOf context node) (nameOf context node) := by
  have generated : SettledBy (generatedName context.options.defStem)
      (generatedName context.options.defStem) := settled_of_events fun _ => ⟨[], rfl⟩
  have titled : SettledBy (titleName? context node) (titleName? context node) := by
    unfold titleName?
    split
    · exact (settled_resolve context node).bind fun _ =>
        (settled_of_events fun _ => ⟨[], rfl⟩).bind fun _ => settled_pure _
    · exact settled_pure _
  refine (settled_of_events fun _ => ⟨[], rfl⟩).bind fun books => ?_
  split
  · exact settled_pure _
  · refine SettledBy.bind ?_ fun _ => SettledBy.bind (settled_of_events fun _ => ⟨[], rfl⟩) fun _ =>
      settled_pure _
    refine titled.bind fun title => ?_
    split
    · exact settled_pure _
    · exact generated

theorem settled_refer : SettledBy (refer context node) (refer context node) :=
  (settled_nameOf context node).bind fun _ => (settled_report _).bind fun _ =>
    (settled_of_events fun _ => ⟨[], rfl⟩).bind fun _ => settled_pure _

end Ledger

/-! ### A larger limit -/

/-- The same compilation with another limit. -/
def CompileContext.deepened (context : CompileContext π) (limit : Nat) : CompileContext π :=
  { context with options := { context.options with maxDepth := limit } }

namespace Chain

open Ledger

variable (context : CompileContext π) (limit : Nat)

/-- Peeling with more room comes to the same, unless the room was all taken up. -/
theorem peel_deepened {room more : Nat} (le : room ≤ more) (peeled : Peeled π) (node : Node π)
    (adapter : Adapter π) (s : Ledger)
    (unlimited : ¬ (peel context room peeled node adapter s).2.Limited) :
    ¬ s.Limited ∧
      ((∃ vendor, (peel context room peeled node adapter s).1.2 = .error (.endless vendor)) ∨
        peel (context.deepened limit) more peeled node adapter s =
          peel context room peeled node adapter s) := by
  induction room, peeled, node, adapter, s using peel_induct context generalizing more with
  | base plain runs =>
    rw [runs] at unlimited ⊢
    exact ⟨unlimited, .inr (peel_of_plain _ _ _ plain)⟩
  | endless wrapped runs =>
    rw [runs] at unlimited ⊢
    exact ⟨unlimited, .inl ⟨_, rfl⟩⟩
  | failed wrapped answer runs =>
    obtain ⟨more, rfl⟩ := Nat.exists_eq_add_of_le' (Nat.one_le_of_lt le)
    rw [runs] at unlimited ⊢
    exact ⟨unlimited, .inr (peel_of_error _ _ _ wrapped answer)⟩
  | hollow wrapped answer runs =>
    obtain ⟨more, rfl⟩ := Nat.exists_eq_add_of_le' (Nat.one_le_of_lt le)
    rw [runs] at unlimited ⊢
    exact ⟨unlimited, .inr (peel_of_hollow _ _ _ wrapped answer)⟩
  | reentered wrapped answer again runs =>
    obtain ⟨more, rfl⟩ := Nat.exists_eq_add_of_le' (Nat.one_le_of_lt le)
    rw [runs] at unlimited ⊢
    exact ⟨unlimited, .inr (peel_of_reentered _ _ _ wrapped answer again)⟩
  | unclaimed wrapped answer new nobody runs =>
    obtain ⟨more, rfl⟩ := Nat.exists_eq_add_of_le' (Nat.one_le_of_lt le)
    rw [runs] at unlimited ⊢
    exact ⟨fun limited => unlimited (limited.of_events (List.cons_append).symm),
      .inr (peel_of_unclaimed _ _ _ wrapped answer new nobody)⟩
  | layer wrapped answer new claims runs ih =>
    obtain ⟨more, rfl⟩ := Nat.exists_eq_add_of_le' (Nat.one_le_of_lt le)
    rw [runs] at unlimited ⊢
    rw [peel_of_layer (context.deepened limit) _ _ wrapped answer new claims]
    obtain ⟨before, same⟩ := ih (Nat.le_of_succ_le_succ le) unlimited
    exact ⟨fun limited => before (limited.of_events rfl), same⟩

end Chain

/-! ### Structures -/

namespace Structure

/-- The limit does not show in the plan for a structure. -/
theorem ofShape_deepened (options : DocumentOptions) (limit : Nat) (node : Node π)
    (adapter : Adapter π) (shape : Shape) :
    ofShape { options with maxDepth := limit } node adapter shape =
      ofShape options node adapter shape := by
  cases shape <;> rfl

variable {child child' : Node π → CompileM NodeSchema}
  (children : ∀ part, SettledBy (child part) (child' part))
include children

theorem carryOut_settled (plan : Plan π α) :
    SettledBy (carryOut child plan).run (carryOut child' plan).run := by
  induction plan with
  | done value => exact settled_pure (Except.ok value)
  | ask answer next ih => exact (Ledger.settled_ask answer).bindExcept ih
  | compile part next ih => exact (children part).lift.bindExcept ih

theorem compile_deepened (context : CompileContext π) (limit : Nat) (node : Node π)
    (adapter : Adapter π) :
    SettledBy (compile context child node adapter).run
      (compile (context.deepened limit) child' node adapter).run := by
  unfold compile
  cases adapter.shape? node with
  | none => exact (Ledger.settled_report _).lift.bindExcept fun _ => settled_pure (Except.ok _)
  | some shape =>
    dsimp only [CompileContext.deepened]
    rw [ofShape_deepened]
    exact carryOut_settled children _

end Structure

/-! ### Nodes -/

namespace Compile

open Ledger

section Claimed

/-- What follows the peeling of a node in its compilation. -/
private def concluded (context : CompileContext π) (child : Node π → CompileM NodeSchema)
    (peeled : Peeled π) (stop : Except CompileFailure (ChainEnd π)) : CompileM NodeSchema := do
  let result ← (finish context child peeled stop).run
  endWork peeled.entered
  match result with
  | .ok assembly => return ⟨assembly.schema, peeled.isOptional, assembly.bounds⟩
  | .error failure =>
    report (.givenUp failure)
    abandon peeled.entered
    return { NodeSchema.empty with isOptional := peeled.isOptional }

private theorem claimed_eq_concluded {context : CompileContext π}
    {child : Node π → CompileM NodeSchema} {node : Node π} {adapter : Adapter π} {peeled : Peeled π}
    {stop : Except CompileFailure (ChainEnd π)} {s t : Ledger}
    (h : Chain.peel context context.options.maxDepth ⟨[], [node.id], false⟩ node adapter
      (beginWork node s).2 = ((peeled, stop), t)) :
    claimed context child node adapter s = concluded context child peeled stop t := by
  rw [claimed, bind_apply, bind_apply, h]
  rfl

/-- A chain that takes up all the room is reported. -/
private theorem limited_concluded (context : CompileContext π)
    (child : Node π → CompileM NodeSchema) (peeled : Peeled π) (vendor : String) (s : Ledger) :
    (concluded context child peeled (.error (.endless vendor)) s).2.Limited := by
  change ((do
    abandon peeled.entered
    return { NodeSchema.empty with isOptional := peeled.isOptional } : CompileM NodeSchema)
      _).2.Limited
  rw [bind_apply, abandon_apply]
  exact ⟨_, List.mem_cons_self, rfl⟩

variable (context : CompileContext π) (limit : Nat) {child child' : Node π → CompileM NodeSchema}
  (children : ∀ part, SettledBy (child part) (child' part))

theorem rewrapAll_settled (assembly : Assembly) (layers : List (PeeledLayer π)) :
    SettledBy (rewrapAll assembly layers) (rewrapAll assembly layers) := by
  induction layers generalizing assembly with
  | nil => exact settled_pure _
  | cons layer rest ih =>
    exact ((settled_define _ _).bind fun _ => settled_pure _).bind ih

include children

theorem core_deepened (entered : List Identity) (stop : ChainEnd π) :
    SettledBy (core context child entered stop).run
      (core (context.deepened limit) child' entered stop).run := by
  cases stop with
  | base node adapter modifier =>
    refine (settled_of_events fun _ => ⟨[], rfl⟩).lift.bindExcept fun _ => ?_
    refine (Structure.compile_deepened children context limit node adapter).bindExcept fun _ => ?_
    exact (settled_define _ _).lift.bindExcept fun _ => settled_pure (Except.ok _)
  | reentered node =>
    exact (settled_refer context node).lift.bindExcept fun _ => settled_pure (Except.ok _)
  | unclaimed => exact settled_pure (Except.ok _)

theorem finish_deepened (peeled : Peeled π) (stop : Except CompileFailure (ChainEnd π)) :
    SettledBy (finish context child peeled stop).run
      (finish (context.deepened limit) child' peeled stop).run := by
  cases stop with
  | error failure => exact settled_pure (Except.error failure)
  | ok stop =>
    exact (core_deepened context limit children _ _).bindExcept fun _ =>
      (rewrapAll_settled _ _).lift

/-- What follows the peeling of a node: its compilation is finished, or the node is given up. -/
private theorem concluded_deepened (peeled : Peeled π) (stop : Except CompileFailure (ChainEnd π)) :
    SettledBy (concluded context child peeled stop)
      (concluded (context.deepened limit) child' peeled stop) := by
  refine (finish_deepened context limit children peeled stop).bind fun result => ?_
  refine (settled_of_events fun _ => ⟨[], rfl⟩).bind fun _ => ?_
  cases result with
  | ok assembly => exact settled_pure _
  | error failure =>
    exact (settled_report _).bind fun _ => (settled_abandon _).bind fun _ => settled_pure _

/-- The compilation of a claimed node, if its chain may get longer and its parts are settled. -/
theorem claimed_deepened (le : context.options.maxDepth ≤ limit) (node : Node π)
    (adapter : Adapter π) :
    SettledBy (claimed context child node adapter)
      (claimed (context.deepened limit) child' node adapter) := by
  intro s unlimited
  rcases peels : Chain.peel context context.options.maxDepth ⟨[], [node.id], false⟩ node adapter
    (beginWork node s).2 with ⟨⟨peeled, stop⟩, t⟩
  rw [claimed_eq_concluded peels] at unlimited ⊢
  obtain ⟨settled, same⟩ := concluded_deepened context limit children peeled stop t unlimited
  obtain ⟨before, ⟨vendor, endless⟩ | peels'⟩ :=
    Chain.peel_deepened context limit le _ node adapter (beginWork node s).2 (by rwa [peels])
  · obtain rfl : stop = .error (.endless vendor) := by rwa [peels] at endless
    exact absurd (limited_concluded context child peeled vendor t) unlimited
  · exact ⟨before, (claimed_eq_concluded (peels'.trans peels)).trans same⟩

end Claimed

variable (context : CompileContext π) (limit : Nat)

/-- A node compiles to the same if more levels of nodes are left, unless a limit is reached. -/
theorem node_deepened (le : context.options.maxDepth ≤ limit) {levels more : Nat}
    (fewer : levels ≤ more) (other : Node π) :
    SettledBy (node context levels other) (node (context.deepened limit) more other) := by
  induction levels generalizing more other with
  | zero =>
    intro s unlimited
    by_cases active : other.id ∈ s.active
    · rw [Call.node_of_active active] at unlimited ⊢
      rw [Call.node_of_active active]
      exact ⟨(settled_refer context other s unlimited).1, rfl⟩
    · exact absurd (Call.limited_of_tooDeep active) unlimited
  | succ levels ih =>
    obtain ⟨more, rfl⟩ := Nat.exists_eq_add_of_le' (Nat.le_trans (Nat.le_add_left 1 levels) fewer)
    have children (part : Node π) :=
      @ih more (Nat.le_of_succ_le_succ fewer) part
    refine (settled_of_events fun _ => ⟨[], rfl⟩).bind fun active => ?_
    split
    · exact (settled_refer context other).bind fun _ => settled_pure _
    · refine (settled_resolve context other).bind fun resolved => ?_
      cases resolved with
      | none => exact (settled_report _).bind fun _ => settled_pure _
      | some adapter => exact claimed_deepened context limit children le other adapter

end Compile

namespace Registry

open Compile

/-- A run that reaches no limit is the run with any larger limit: it writes the same document,
reports the same and uses up the same identities. -/
theorem compile_eq_of_unlimited (registry : Registry π) (options : DocumentOptions) (node : Node π)
    (supply : Nat)
    (unlimited : ∀ event ∈ (registry.compile options node supply).1.events,
      event.reachesLimit = false) {deeper : Nat} (le : options.maxDepth ≤ deeper) :
    registry.compile { options with maxDepth := deeper } node supply =
      registry.compile options node supply := by
  have whole : ¬ (registry.books options node supply).Limited := by
    rintro ⟨event, mem, reaches⟩
    rw [unlimited event (List.mem_reverse.2 mem)] at reaches
    cases reaches
  have same := (node_deepened ⟨registry, options⟩ deeper le (Nat.succ_le_succ le) node
    (Ledger.start supply) whole).2
  have books : registry.books { options with maxDepth := deeper } node supply =
      registry.books options node supply := congrArg Prod.snd same
  have answer : (rootCall { options with maxDepth := deeper } node supply).answer
      ⟨registry, { options with maxDepth := deeper }⟩ =
        (rootCall options node supply).answer ⟨registry, options⟩ := congrArg Prod.fst same
  rw [compile_eq, compile_eq, books, answer]
  rfl

/-- A list of itself needs one level of nodes, so its document is the same at every limit. -/
theorem selfList_compile_maxDepth :
    (selfList.compile { maxDepth := 0 } ⟨⟨0⟩, "list", ()⟩ 1).1.events = [.referred "List"] ∧
      selfList.compile { maxDepth := 256 } ⟨⟨0⟩, "list", ()⟩ 1 =
        selfList.compile { maxDepth := 0 } ⟨⟨0⟩, "list", ()⟩ 1 := by
  have events : (selfList.compile { maxDepth := 0 } ⟨⟨0⟩, "list", ()⟩ 1).1.events =
      [.referred "List"] := rfl
  refine ⟨events, compile_eq_of_unlimited selfList { maxDepth := 0 } ⟨⟨0⟩, "list", ()⟩ 1 ?_
    (Nat.zero_le 256)⟩
  rw [events]
  intro event mem
  rw [List.mem_singleton.1 mem]
  rfl

end Registry

end SchemaBridge
