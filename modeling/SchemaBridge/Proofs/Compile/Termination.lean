import SchemaBridge.Proofs.Compile.Outcome

/-!
# Compilation ends

The compilation of a node as it is said without any bound on it: calls count their depth upwards,
the loop that takes layers off counts the layers that it has pushed, and a run is whatever is
derived by finitely many steps. Neither the schema nor the nodes in progress bound such a run, since
an adapter may answer every question with a new node. Every call ends nevertheless. Along the calls
it is the depth that reaches its limit, along a chain the number of layers, and the calls for the
parts of a structure are as many as its plan compiles.

## Main definitions

* `Compile.Loops` : the loop that takes layers off, with the layers that it has pushed.
* `Compile.Ends`, `Compile.Assembles`, `Compile.Carries` : the runs for a node, for what is at the
  end of its chain, and for a plan, with the calls and the loops on the way.
* `Compile.Bounded` : no call is deeper than one more than the limit, and no loop pushes more layers
  than the limit.

## Main results

* `Compile.loops_peel`, `Compile.Loops.length_le` : the loop ends, and pushes so many layers at
  most.
* `Compile.exists_ends`, `Compile.Ends.spec` : every call ends, in one way only, within the bounds.
* `Registry.compile_ends` : the compilation of a document ends.
-/

namespace SchemaBridge

variable {π : Type}

namespace Compile

open Chain Ledger Plan Stateful

/-! ### Layers -/

/-- The loop that takes layers off goes on from what has been pushed so far, and ends with this. -/
inductive Loops (context : CompileContext π) : Peeled π → Node π → Adapter π → Ledger → Peeled π →
    Except CompileFailure (ChainEnd π) → Ledger → Prop where
  /-- The node has no modifier. -/
  | plain {peeled : Peeled π} {node : Node π} {adapter : Adapter π} {s : Ledger}
      (plain : adapter.modifier? node = none) :
      Loops context peeled node adapter s peeled (.ok (.base node adapter none)) s
  /-- So many layers have been pushed that there is no room for another one. -/
  | full {peeled : Peeled π} {node : Node π} {adapter : Adapter π} {modifier : Modifier}
      {s : Ledger}
      (wrapped : adapter.modifier? node = some modifier)
      (full : context.options.maxDepth ≤ peeled.layers.length) :
      Loops context peeled node adapter s peeled (.error (.endless adapter.vendor)) s
  /-- The adapter fails to tell what is inside. -/
  | failed {peeled : Peeled π} {node : Node π} {adapter : Adapter π} {modifier : Modifier}
      {s : Ledger} {error : VendorError} {supply : Nat}
      (wrapped : adapter.modifier? node = some modifier)
      (room : peeled.layers.length < context.options.maxDepth)
      (answer : adapter.inner node s.supply = (.error error, supply)) :
      Loops context peeled node adapter s (noteModifier peeled modifier) (.error (.raised error))
        { s with supply }
  /-- Nothing is inside. -/
  | hollow {peeled : Peeled π} {node : Node π} {adapter : Adapter π} {modifier : Modifier}
      {s : Ledger} {supply : Nat} (wrapped : adapter.modifier? node = some modifier)
      (room : peeled.layers.length < context.options.maxDepth)
      (answer : adapter.inner node s.supply = (.ok none, supply)) :
      Loops context peeled node adapter s (noteModifier peeled modifier)
        (.ok (.base node adapter (some modifier))) { s with supply }
  /-- A node in progress is inside. -/
  | reentered {peeled : Peeled π} {node inner : Node π} {adapter : Adapter π} {modifier : Modifier}
      {s : Ledger} {supply : Nat} (wrapped : adapter.modifier? node = some modifier)
      (room : peeled.layers.length < context.options.maxDepth)
      (answer : adapter.inner node s.supply = (.ok (some inner), supply))
      (again : inner.id ∈ s.active) :
      Loops context peeled node adapter s
        (push (noteModifier peeled modifier) ⟨node, adapter, modifier⟩) (.ok (.reentered inner))
        { s with supply }
  /-- A node that nobody claims is inside. -/
  | unclaimed {peeled : Peeled π} {node inner : Node π} {adapter : Adapter π} {modifier : Modifier}
      {s : Ledger} {supply : Nat} (wrapped : adapter.modifier? node = some modifier)
      (room : peeled.layers.length < context.options.maxDepth)
      (answer : adapter.inner node s.supply = (.ok (some inner), supply))
      (new : inner.id ∉ s.active) (nobody : (context.registry.resolve inner).value = none) :
      Loops context peeled node adapter s (entering peeled ⟨node, adapter, modifier⟩ inner)
        (.ok .unclaimed)
        { s with
          active := inner.id :: s.active
          supply
          events := .unclaimedInner inner.typeName ::
            (context.registry.resolve inner).events.reverse ++ s.events }
  /-- The loop goes on with the node inside. -/
  | layer {peeled peeled' : Peeled π} {node inner : Node π} {adapter next : Adapter π}
      {modifier : Modifier} {s t : Ledger} {supply : Nat}
      {stop : Except CompileFailure (ChainEnd π)}
      (wrapped : adapter.modifier? node = some modifier)
      (room : peeled.layers.length < context.options.maxDepth)
      (answer : adapter.inner node s.supply = (.ok (some inner), supply))
      (new : inner.id ∉ s.active) (claims : (context.registry.resolve inner).value = some next)
      (rest : Loops context (entering peeled ⟨node, adapter, modifier⟩ inner) inner next
        { s with
          active := inner.id :: s.active
          supply
          events := (context.registry.resolve inner).events.reverse ++ s.events } peeled' stop t) :
      Loops context peeled node adapter s peeled' stop t

section Loops

variable {context : CompileContext π}

/-- The loop ends: the room that is left is what the limit leaves for layers. -/
theorem loops_peel (room : Nat) {peeled : Peeled π} (node : Node π) (adapter : Adapter π)
    (s : Ledger) (left : peeled.layers.length + room = context.options.maxDepth) :
    Loops context peeled node adapter s (peel context room peeled node adapter s).1.1
      (peel context room peeled node adapter s).1.2
      (peel context room peeled node adapter s).2 := by
  induction room, peeled, node, adapter, s using peel_induct context with
  | base plain runs =>
    rw [runs]
    exact .plain plain
  | endless wrapped runs =>
    rw [runs]
    exact .full wrapped (by omega)
  | failed wrapped answer runs =>
    rw [runs]
    exact .failed wrapped (by omega) answer
  | hollow wrapped answer runs =>
    rw [runs]
    exact .hollow wrapped (by omega) answer
  | reentered wrapped answer again runs =>
    rw [runs]
    exact .reentered wrapped (by omega) answer again
  | unclaimed wrapped answer new nobody runs =>
    rw [runs]
    exact .unclaimed wrapped (by omega) answer new nobody
  | @layer room peeled _ _ _ _ _ _ _ wrapped answer new claims runs ih =>
    rw [runs]
    refine .layer wrapped (by omega) answer new claims (ih ?_)
    change peeled.layers.length + 1 + room = _
    omega

/-- The loop pushes no more layers than the limit. -/
theorem Loops.length_le {peeled peeled' : Peeled π} {node : Node π} {adapter : Adapter π}
    {s t : Ledger} {stop : Except CompileFailure (ChainEnd π)}
    (h : Loops context peeled node adapter s peeled' stop t)
    (within : peeled.layers.length ≤ context.options.maxDepth) :
    peeled'.layers.length ≤ context.options.maxDepth := by
  induction h with
  | plain | full | failed | hollow => exact within
  | reentered _ room | unclaimed _ room => exact room
  | layer _ room _ _ _ _ ih => exact ih room

/-- The loop only ends in the way in which the layers are peeled off. -/
theorem Loops.peel_eq {peeled peeled' : Peeled π} {node : Node π} {adapter : Adapter π}
    {s t : Ledger} {stop : Except CompileFailure (ChainEnd π)}
    (h : Loops context peeled node adapter s peeled' stop t) (room : Nat)
    (left : peeled.layers.length + room = context.options.maxDepth) :
    peel context room peeled node adapter s = ((peeled', stop), t) := by
  induction h generalizing room with
  | plain plain => exact peel_of_plain _ _ _ plain
  | full wrapped full =>
    obtain rfl : room = 0 := by omega
    exact peel_zero _ _ wrapped
  | failed wrapped fits answer =>
    obtain ⟨room, rfl⟩ := Nat.exists_eq_succ_of_ne_zero (by omega : room ≠ 0)
    exact peel_of_error _ _ _ wrapped answer
  | hollow wrapped fits answer =>
    obtain ⟨room, rfl⟩ := Nat.exists_eq_succ_of_ne_zero (by omega : room ≠ 0)
    exact peel_of_hollow _ _ _ wrapped answer
  | reentered wrapped fits answer again =>
    obtain ⟨room, rfl⟩ := Nat.exists_eq_succ_of_ne_zero (by omega : room ≠ 0)
    exact peel_of_reentered _ _ _ wrapped answer again
  | unclaimed wrapped fits answer new nobody =>
    obtain ⟨room, rfl⟩ := Nat.exists_eq_succ_of_ne_zero (by omega : room ≠ 0)
    exact peel_of_unclaimed _ _ _ wrapped answer new nobody
  | @layer peeled _ _ _ _ _ _ _ _ _ _ wrapped fits answer new claims _ ih =>
    obtain ⟨room, rfl⟩ := Nat.exists_eq_succ_of_ne_zero (by omega : room ≠ 0)
    refine (peel_of_layer _ _ _ wrapped answer new claims).trans (ih room ?_)
    change peeled.layers.length + 1 + room = _
    omega

end Loops

/-! ### Runs -/

/-- What is noted of a run, in order. -/
inductive Mark (π : Type) where
  /-- A call for a node at a depth. -/
  | call (depth : Nat) (node : Node π)
  /-- A loop that has pushed so many layers. -/
  | loop (pushed : Nat)

/-- The answer for a node, and the books, when the end of its chain has been assembled or has
failed. -/
def settle (peeled : Peeled π) (stop : Except CompileFailure (ChainEnd π)) :
    Except CompileFailure Assembly × Ledger → NodeSchema × Ledger
  | (.ok core, s) =>
    let whole := wrap peeled.layers.reverse core
    let entries : List (Identity × Json.Fields) := match stop with
      | .ok stop => storedAlong peeled.layers.reverse stop core
      | .error _ => []
    (⟨whole.schema, peeled.isOptional, whole.bounds⟩, finished peeled.entered entries s)
  | (.error failure, s) => (⟨[], peeled.isOptional, .value⟩, lost peeled.entered failure s)

mutual

/-- A call for a node at a depth ends: what is noted of it, its answer, and the books after it. -/
inductive Ends (context : CompileContext π) : Nat → Node π → Ledger → List (Mark π) →
    NodeSchema × Ledger → Prop where
  /-- The node is in progress. -/
  | active {depth : Nat} {node : Node π} {s : Ledger} (active : node.id ∈ s.active) :
      Ends context depth node s [.call depth node]
        (.required (refer context node s).1.1 (refer context node s).1.2, (refer context node s).2)
  /-- The node lies beyond the limit. -/
  | tooDeep {depth : Nat} {node : Node π} {s : Ledger} (new : node.id ∉ s.active)
      (deep : context.options.maxDepth < depth) :
      Ends context depth node s [.call depth node]
        (.empty,
          { s with events := .tooDeep context.options.maxDepth node.typeName :: s.events })
  /-- Nobody claims the node. -/
  | unclaimed {depth : Nat} {node : Node π} {s : Ledger} (new : node.id ∉ s.active)
      (shallow : depth ≤ context.options.maxDepth)
      (nobody : (context.registry.resolve node).value = none) :
      Ends context depth node s [.call depth node]
        (.empty, { s with
          events := .unclaimed node.typeName ::
            (context.registry.resolve node).events.reverse ++ s.events })
  /-- The layers are taken off, what is at their end is assembled, and the layers are laid on. -/
  | claimed {depth : Nat} {node : Node π} {adapter : Adapter π} {s t : Ledger} {peeled : Peeled π}
      {stop : Except CompileFailure (ChainEnd π)} {marks : List (Mark π)}
      {result : Except CompileFailure Assembly × Ledger} (new : node.id ∉ s.active)
      (shallow : depth ≤ context.options.maxDepth)
      (claims : (context.registry.resolve node).value = some adapter)
      (loops : Loops context ⟨[], [node.id], false⟩ node adapter
        (beginWork node (resolve context node s).2).2 peeled stop t)
      (assembles : Assembles context depth peeled.entered stop t marks result) :
      Ends context depth node s (.call depth node :: .loop peeled.layers.length :: marks)
        (settle peeled stop result)

/-- What is at the end of a chain is assembled, or fails, during a call at a depth. -/
inductive Assembles (context : CompileContext π) : Nat → List Identity →
    Except CompileFailure (ChainEnd π) → Ledger → List (Mark π) →
    Except CompileFailure Assembly × Ledger → Prop where
  /-- The chain has failed. -/
  | failed {depth : Nat} {ids : List Identity} {failure : CompileFailure} {s : Ledger} :
      Assembles context depth ids (.error failure) s [] (.error failure, s)
  /-- The plan of the shape is carried out: the parts lie one deeper. -/
  | shaped {depth : Nat} {ids : List Identity} {base : Node π} {adapter : Adapter π}
      {modifier : Option Modifier} {shape : Shape} {s t : Ledger} {marks : List (Mark π)}
      {result : Except CompileFailure Assembly} (seen : adapter.shape? base = some shape)
      (carries : Carries context (depth + 1) (Structure.ofShape context.options base adapter shape)
        (noted base adapter ids s) marks (result, t)) :
      Assembles context depth ids (.ok (.base base adapter modifier)) s marks
        (result.map fun f => f.addLayer adapter base modifier, t)
  /-- The base has no shape. -/
  | shapeless {depth : Nat} {ids : List Identity} {base : Node π} {adapter : Adapter π}
      {modifier : Option Modifier} {s : Ledger} (unseen : adapter.shape? base = none) :
      Assembles context depth ids (.ok (.base base adapter modifier)) s []
        (.ok (Assembly.any.addLayer adapter base modifier),
          (report (.shapeless adapter.vendor base.typeName) (noted base adapter ids s)).2)
  /-- The node in progress is referred to. -/
  | reentered {depth : Nat} {ids : List Identity} {node : Node π} {s : Ledger} :
      Assembles context depth ids (.ok (.reentered node)) s []
        (.ok { body := (refer context node s).1.1, bounds := (refer context node s).1.2 },
          (refer context node s).2)
  /-- The node that nobody claims accepts anything. -/
  | unclaimed {depth : Nat} {ids : List Identity} {s : Ledger} :
      Assembles context depth ids (.ok .unclaimed) s [] (.ok .any, s)

/-- A plan is carried out, with its parts at a depth. -/
inductive Carries (context : CompileContext π) : Nat → Plan π Assembly → Ledger → List (Mark π) →
    Except CompileFailure Assembly × Ledger → Prop where
  /-- Nothing is left to be done. -/
  | done {depth : Nat} {assembly : Assembly} {s : Ledger} :
      Carries context depth (.done assembly) s [] (.ok assembly, s)
  /-- A question is not answered. -/
  | refused {depth : Nat} {γ : Type} {answer : Answer γ} {next : γ → Plan π Assembly} {s : Ledger}
      {error : VendorError} {supply : Nat} (refused : answer s.supply = (.error error, supply)) :
      Carries context depth (.ask answer next) s [] (.error (.raised error), { s with supply })
  /-- A question is answered. -/
  | ask {depth : Nat} {γ : Type} {answer : Answer γ} {next : γ → Plan π Assembly} {s : Ledger}
      {given : γ} {supply : Nat} {marks : List (Mark π)}
      {result : Except CompileFailure Assembly × Ledger}
      (answered : answer s.supply = (.ok given, supply))
      (rest : Carries context depth (next given) { s with supply } marks result) :
      Carries context depth (.ask answer next) s marks result
  /-- A part is compiled by a call. -/
  | compile {depth : Nat} {part : Node π} {next : NodeSchema → Plan π Assembly} {s t : Ledger}
      {c : NodeSchema} {marks more : List (Mark π)}
      {result : Except CompileFailure Assembly × Ledger}
      (ends : Ends context depth part s marks (c, t))
      (rest : Carries context depth (next c) t more result) :
      Carries context depth (.compile part next) s (marks ++ more) result

end

/-- The calls are not deeper than one more than the limit, and the loops push no more layers than
the limit. -/
def Bounded (context : CompileContext π) (marks : List (Mark π)) : Prop :=
  (∀ depth node, .call depth node ∈ marks → depth ≤ context.options.maxDepth + 1) ∧
    ∀ pushed, .loop pushed ∈ marks → pushed ≤ context.options.maxDepth

section Runs

variable {context : CompileContext π} {child : Node π → CompileM NodeSchema}

theorem bounded_nil : Bounded context ([] : List (Mark π)) := ⟨nofun, nofun⟩

theorem Bounded.append {marks more : List (Mark π)} (h : Bounded context marks)
    (h' : Bounded context more) : Bounded context (marks ++ more) :=
  ⟨fun depth node mem => (List.mem_append.1 mem).elim (h.1 depth node) (h'.1 depth node),
    fun pushed mem => (List.mem_append.1 mem).elim (h.2 pushed) (h'.2 pushed)⟩

theorem bounded_call {depth : Nat} (node : Node π) (within : depth ≤ context.options.maxDepth + 1) :
    Bounded context [.call depth node] := by
  refine ⟨fun depth' node' mem => ?_, fun pushed mem => ?_⟩
  · obtain ⟨rfl, -⟩ := Mark.call.inj (List.mem_singleton.1 mem)
    exact within
  · cases List.mem_singleton.1 mem

theorem bounded_loop {pushed : Nat} (within : pushed ≤ context.options.maxDepth) :
    Bounded context ([.loop pushed] : List (Mark π)) := by
  refine ⟨fun depth' node' mem => ?_, fun pushed mem => ?_⟩
  · cases List.mem_singleton.1 mem
  · obtain rfl := Mark.loop.inj (List.mem_singleton.1 mem)
    exact within

/-! ### Calls -/

/-- What is at the end of a chain, if parts are compiled by `child`. -/
private def assembled (context : CompileContext π) (child : Node π → CompileM NodeSchema)
    (ids : List Identity) :
    Except CompileFailure (ChainEnd π) → Ledger → Except CompileFailure Assembly × Ledger
  | .error failure, s => (.error failure, s)
  | .ok (.base base adapter modifier), s =>
    let (result, s) := Structure.compile context child base adapter (noted base adapter ids s)
    (result.map fun f => f.addLayer adapter base modifier, s)
  | .ok (.reentered node), s =>
    (.ok { body := (refer context node s).1.1, bounds := (refer context node s).1.2 },
      (refer context node s).2)
  | .ok .unclaimed, s => (.ok .any, s)

/-- The compilation of a claimed node, from where its layers have been peeled off. -/
private theorem claimed_of_peeled {node : Node π} {adapter : Adapter π} {s t : Ledger}
    {peeled : Peeled π} {stop : Except CompileFailure (ChainEnd π)} (new : node.id ∉ s.active)
    (peels : peel context context.options.maxDepth ⟨[], [node.id], false⟩ node adapter
      (beginWork node s).2 = ((peeled, stop), t)) :
    claimed context child node adapter s =
      settle peeled stop (assembled context child peeled.entered stop t) := by
  obtain ⟨layers, isOptional, stop', ids, t', peels'⟩ := peels_of_peel context node adapter new
  obtain ⟨same, rfl⟩ := Prod.mk.inj (peels.symm.trans peels'.runs)
  obtain ⟨rfl, rfl⟩ := Prod.mk.inj same
  have result := (claimed_outcome context child node adapter new).concludes peels'
  generalize claimed context child node adapter s = answered at result ⊢
  obtain ⟨c, u⟩ := answered
  cases result with
  | success atEnd =>
    cases atEnd with
    | built runs =>
      rw [assembled, runs]
      change _ = settle _ _ (.ok _, _)
      rw [settle, List.reverse_reverse]
      rfl
    | looped =>
      rw [assembled, settle, List.reverse_reverse]
      rfl
    | unclaimed =>
      rw [assembled, settle, List.reverse_reverse]
      rfl
  | givenUp => rfl
  | broken runs =>
    rw [assembled, runs]
    rfl

/-- The parts of a plan are as many as it compiles: if all calls for parts end, the plan does. -/
private theorem exists_carries {depth : Nat}
    (parts : ∀ part s, ∃ marks, Ends context depth part s marks (child part s) ∧
      Bounded context marks)
    (plan : Plan π Assembly) (s : Ledger) :
    ∃ marks, Carries context depth plan s marks (Structure.carryOut child plan s) ∧
      Bounded context marks := by
  induction plan generalizing s with
  | done assembly => exact ⟨[], .done, bounded_nil⟩
  | ask answer next ih =>
    rcases given : answer s.supply with ⟨error | value, supply⟩
    · rw [Structure.carryOut_ask_of_error child next given]
      exact ⟨[], .refused given, bounded_nil⟩
    · rw [Structure.carryOut_ask_of_ok child next given]
      obtain ⟨marks, carries, bounded⟩ := ih value { s with supply }
      exact ⟨marks, .ask given carries, bounded⟩
  | compile part next ih =>
    obtain ⟨marks, ends, bounded⟩ := parts part s
    obtain ⟨more, carries, bounded'⟩ := ih (child part s).1 (child part s).2
    exact ⟨marks ++ more, .compile ends carries, bounded.append bounded'⟩

private theorem exists_assembles {depth : Nat}
    (parts : ∀ part s, ∃ marks, Ends context (depth + 1) part s marks (child part s) ∧
      Bounded context marks)
    (ids : List Identity) (stop : Except CompileFailure (ChainEnd π)) (s : Ledger) :
    ∃ marks, Assembles context depth ids stop s marks (assembled context child ids stop s) ∧
      Bounded context marks := by
  match stop with
  | .error failure => exact ⟨[], .failed, bounded_nil⟩
  | .ok (.reentered node) => exact ⟨[], .reentered, bounded_nil⟩
  | .ok .unclaimed => exact ⟨[], .unclaimed, bounded_nil⟩
  | .ok (.base base adapter modifier) =>
    rw [assembled, Structure.compile]
    cases seen : adapter.shape? base with
    | none => exact ⟨[], .shapeless seen, bounded_nil⟩
    | some shape =>
      obtain ⟨marks, carries, bounded⟩ := exists_carries parts
        (Structure.ofShape context.options base adapter shape) (noted base adapter ids s)
      exact ⟨marks, .shaped seen carries, bounded⟩

/-- Every call ends, within the bounds. The depth that is left is what decreases along the calls. -/
theorem exists_ends (levels : Nat) {depth : Nat}
    (left : depth + levels = context.options.maxDepth + 1) (node : Node π) (s : Ledger) :
    ∃ marks, Ends context depth node s marks (Compile.node context levels node s) ∧
      Bounded context marks := by
  induction levels generalizing depth node s with
  | zero =>
    refine ⟨[.call depth node], ?_, bounded_call node (by omega)⟩
    by_cases active : node.id ∈ s.active
    · rw [Compile.node, step_of_active context none active]
      exact .active active
    · rw [Compile.node, step_none context active]
      exact .tooDeep active (by omega)
  | succ levels ih =>
    have call : Bounded context [.call depth node] := bounded_call node (by omega)
    by_cases active : node.id ∈ s.active
    · rw [Compile.node, step_of_active context _ active]
      exact ⟨_, .active active, call⟩
    · cases claims : (context.registry.resolve node).value with
      | none =>
        rw [Compile.node, step_of_unclaimed context active claims]
        exact ⟨_, .unclaimed active (by omega) claims, call⟩
      | some adapter =>
        have new : node.id ∉ (resolve context node s).2.active := active
        have loops := @loops_peel _ context context.options.maxDepth ⟨[], [node.id], false⟩ node
          adapter (beginWork node (resolve context node s).2).2 (Nat.zero_add _)
        rcases peels : peel context context.options.maxDepth ⟨[], [node.id], false⟩ node adapter
          (beginWork node (resolve context node s).2).2 with ⟨⟨peeled, stop⟩, t⟩
        rw [peels] at loops
        have parts (part : Node π) (s : Ledger) : ∃ marks, Ends context (depth + 1) part s marks
            (Compile.node context levels part s) ∧ Bounded context marks := ih (by omega) part s
        obtain ⟨marks, assembles, bounded⟩ := exists_assembles parts peeled.entered stop t
        rw [Compile.node, step_of_claimed context active claims]
        refine ⟨_, ?_,
          call.append ((bounded_loop (loops.length_le (Nat.zero_le _))).append bounded)⟩
        have ends := Ends.claimed active (by omega) claims loops assembles
        rwa [← claimed_of_peeled new peels] at ends

private theorem Carries.spec {depth : Nat} {plan : Plan π Assembly}
    (parts : ∀ part s marks result, Ends context depth part s marks result →
      child part s = result ∧ Bounded context marks) {s : Ledger} {marks : List (Mark π)}
    {result : Except CompileFailure Assembly × Ledger}
    (h : Carries context depth plan s marks result) :
    Structure.carryOut child plan s = result ∧ Bounded context marks := by
  induction plan generalizing s marks with
  | done =>
    cases h
    exact ⟨rfl, bounded_nil⟩
  | ask answer next ih =>
    cases h with
    | refused refused => exact ⟨Structure.carryOut_ask_of_error child next refused, bounded_nil⟩
    | ask answered rest =>
      obtain ⟨same, bounded⟩ := ih _ rest
      exact ⟨(Structure.carryOut_ask_of_ok child next answered).trans same, bounded⟩
  | compile part next ih =>
    cases h with
    | compile ends rest =>
      obtain ⟨same, bounded⟩ := parts _ _ _ _ ends
      obtain ⟨same', bounded'⟩ := ih _ rest
      refine ⟨?_, bounded.append bounded'⟩
      rw [Structure.carryOut_compile, same]
      exact same'

private theorem Assembles.spec {depth : Nat}
    (parts : ∀ part s marks result, Ends context (depth + 1) part s marks result →
      child part s = result ∧ Bounded context marks)
    {ids : List Identity} {stop : Except CompileFailure (ChainEnd π)} {s : Ledger}
    {marks : List (Mark π)} {result : Except CompileFailure Assembly × Ledger}
    (h : Assembles context depth ids stop s marks result) :
    assembled context child ids stop s = result ∧ Bounded context marks := by
  cases h with
  | failed | reentered | unclaimed => exact ⟨rfl, bounded_nil⟩
  | shaped seen carries =>
    obtain ⟨same, bounded⟩ := carries.spec parts
    refine ⟨?_, bounded⟩
    rw [assembled, Structure.compile, seen]
    dsimp only
    rw [same]
  | shapeless unseen =>
    refine ⟨?_, bounded_nil⟩
    rw [assembled, Structure.compile, unseen]
    rfl

/-- A call only ends in the way in which its node is compiled, and within the bounds. -/
theorem Ends.spec (levels : Nat) {depth : Nat}
    (left : depth + levels = context.options.maxDepth + 1) {node : Node π} {s : Ledger}
    {marks : List (Mark π)} {result : NodeSchema × Ledger}
    (h : Ends context depth node s marks result) :
    Compile.node context levels node s = result ∧ Bounded context marks := by
  induction levels generalizing depth node s marks result with
  | zero =>
    cases h with
    | active active => exact ⟨step_of_active context none active, bounded_call node (by omega)⟩
    | tooDeep new => exact ⟨step_none context new, bounded_call node (by omega)⟩
    | unclaimed _ shallow | claimed _ shallow => omega
  | succ levels ih =>
    have call : Bounded context [.call depth node] := bounded_call node (by omega)
    cases h with
    | active active => exact ⟨step_of_active context _ active, call⟩
    | tooDeep _ deep => omega
    | unclaimed new _ nobody => exact ⟨step_of_unclaimed context new nobody, call⟩
    | claimed new shallow claims loops assembles =>
      obtain ⟨same, bounded⟩ := assembles.spec fun part s marks result ends => ih (by omega) ends
      refine ⟨?_, call.append ((bounded_loop (loops.length_le (Nat.zero_le _))).append bounded)⟩
      have peels := loops.peel_eq context.options.maxDepth (Nat.zero_add _)
      rw [Compile.node, step_of_claimed context new claims, ← same]
      exact claimed_of_peeled new peels

/-- A call beyond the limit compiles nothing further: it makes no call, it takes off no layer, and
it answers with a reference or with the empty schema. -/
theorem Ends.beyond {depth : Nat} (deep : context.options.maxDepth < depth) {node : Node π}
    {s : Ledger} {marks : List (Mark π)} {result : NodeSchema × Ledger}
    (h : Ends context depth node s marks result) :
    marks = [.call depth node] ∧
      (result.1 = .empty ∨ ∃ name bounds, result.1 = .required (refSchema name) bounds) := by
  cases h with
  | active => exact ⟨rfl, .inr ⟨_, _, rfl⟩⟩
  | tooDeep => exact ⟨rfl, .inl rfl⟩
  | unclaimed _ shallow | claimed _ shallow => omega

end Runs

end Compile

namespace Registry

open Compile

/-- The compilation of a document ends, whatever the adapters answer: there is a run for the root,
and in every run for it no call is deeper than one more than the limit, a call of that depth
compiles nothing further, no loop pushes more layers than the limit, and the answer is the
document. -/
theorem compile_ends (registry : Registry π) (options : DocumentOptions) (root : Node π)
    (supply : Nat) :
    (∃ marks c books, Ends ⟨registry, options⟩ 0 root (Ledger.start supply) marks (c, books)) ∧
      ∀ marks c books,
        Ends ⟨registry, options⟩ 0 root (Ledger.start supply) marks (c, books) →
        (∀ depth node, .call depth node ∈ marks → depth ≤ options.maxDepth + 1) ∧
        (∀ node s noted result,
          Ends ⟨registry, options⟩ (options.maxDepth + 1) node s noted result →
          noted = [.call (options.maxDepth + 1) node] ∧
            (result.1 = .empty ∨
              ∃ name bounds, result.1 = .required (Ledger.refSchema name) bounds)) ∧
        (∀ pushed, .loop pushed ∈ marks → pushed ≤ options.maxDepth) ∧
        (registry.compile options root supply).1 =
          ⟨books.events.reverse, document options c.schema books.definitions⟩ := by
  refine ⟨?_, fun marks c books ends => ?_⟩
  · obtain ⟨marks, ends, -⟩ := @exists_ends π ⟨registry, options⟩ (options.maxDepth + 1) 0
      (Nat.zero_add _) root (Ledger.start supply)
    exact ⟨marks, _, _, ends⟩
  · obtain ⟨same, calls, loops⟩ := ends.spec (options.maxDepth + 1) (Nat.zero_add _)
    refine ⟨calls, fun node s noted result deepest => deepest.beyond (Nat.lt_succ_self _),
      loops, ?_⟩
    have run : (Compile.node ⟨registry, options⟩ (options.maxDepth + 1) root).run
      (Ledger.start supply) = (c, books) := same
    rw [Registry.compile, run]

end Registry

end SchemaBridge
