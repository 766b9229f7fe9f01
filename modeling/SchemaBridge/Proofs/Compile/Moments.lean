import SchemaBridge.Proofs.Compile.Termination
import SchemaBridge.Proofs.Compile.Walks

/-!
# The moments of a compilation

Between the books at a call and the books after it there is one moment after each operation on them.
A moment also has a path: the nodes from the one at which the call was made to the one at which
compilation has arrived. The path gets longer by a node when work is started on it, layer by layer
along a chain and from the base of a chain to a part, and when the compilation of a node ends it is
again what it was before. The moments are listed along the code, and each of them comes from the one
before by one operation on the books.

## Main definitions

* `Moment` : a path and the books.
* `Moment.Next` : one operation on the books, and what it does to the path.
* `Moment.Runs` : moments that follow one another.
* `Compile.moments`, `Call.moments` : the moments of a call.

## Main results

* `Moment.Runs.keeps` : what every operation keeps is kept by a run.
* `Compile.runs_moments` : the moments of a call lead from the books at the call to those after it.
* `Call.Within.moments` : every call of a run is made at one of the moments of the run.
-/

namespace SchemaBridge

open Chain Ledger Compile

variable {π : Type}

/-- A moment of a compilation. -/
structure Moment (π : Type) where
  /-- The nodes from where compilation has started to where it has arrived. -/
  path : List (Node π)
  books : Ledger

/-- A path from a node goes on to another one: it is empty and starts there, or its last node leads
there. -/
def GoesOn (registry : Registry π) (start : Node π) (path : List (Node π)) (node : Node π) : Prop :=
  match path.getLast? with
  | none => node = start
  | some last => Leads registry last node

/-- A path goes on to where its last node leads. -/
theorem goesOn_of_leads {registry : Registry π} {start last node : Node π} {path : List (Node π)}
    (here : path.getLast? = some last) (leads : Leads registry last node) :
    GoesOn registry start path node := by
  rwa [GoesOn, here]

namespace Moment

/-! ### One moment after another -/

/-- One operation on the books in a compilation that has started at a node, and what it does to the
path. -/
inductive Next (context : CompileContext π) (start : Node π) : Moment π → Moment π → Prop where
  /-- Something is reported. -/
  | reports (path : List (Node π)) (s : Ledger) (event : Event) :
      Next context start ⟨path, s⟩ ⟨path, (report event s).2⟩
  /-- A question is put. -/
  | asks (path : List (Node π)) (s : Ledger) {β : Type} (answer : Answer β) :
      Next context start ⟨path, s⟩ ⟨path, (ask answer s).2⟩
  /-- The adapter of a node is looked for. -/
  | resolves (path : List (Node π)) (s : Ledger) (node : Node π) :
      Next context start ⟨path, s⟩ ⟨path, (resolve context node s).2⟩
  /-- Work is started on a node that is not in progress and to which the path goes on. -/
  | begins {path : List (Node π)} {s : Ledger} {node : Node π}
      (onward : GoesOn context.registry start path node) (new : node.id ∉ s.active) :
      Next context start ⟨path, s⟩ ⟨path ++ [node], (beginWork node s).2⟩
  /-- A family is noted for nodes on the path. -/
  | notes {path : List (Node π)} (s : Ledger) (family : BoundsFamily) {ids : List Identity}
      (onPath : ∀ id ∈ ids, id ∈ path.map (·.id)) :
      Next context start ⟨path, s⟩ ⟨path, (noteFamily family ids s).2⟩
  /-- A node is referred to. -/
  | refers (path : List (Node π)) (s : Ledger) (node : Node π) :
      Next context start ⟨path, s⟩ ⟨path, (refer context node s).2⟩
  /-- A schema is stored as the definition of a node. -/
  | defines (path : List (Node π)) (s : Ledger) (id : Identity) (schema : Json.Fields) :
      Next context start ⟨path, s⟩ ⟨path, (define id schema s).2⟩
  /-- Work is ended on the last nodes of the path. -/
  | ends (path left : List (Node π)) (s : Ledger) :
      Next context start ⟨path ++ left, s⟩ ⟨path, (endWork (left.map (·.id)) s).2⟩

theorem Next.asked {context : CompileContext π} {start : Node π} {path : List (Node π)} {s : Ledger}
    {β : Type} {answer : Answer β} {result : Except VendorError β} {supply : Nat}
    (h : answer s.supply = (result, supply)) :
    Next context start ⟨path, s⟩ ⟨path, { s with supply }⟩ := by
  obtain rfl : (answer s.supply).2 = supply := congrArg Prod.snd h
  exact .asks path s answer

/-- Moments that follow one another by single operations, up to a last one. -/
inductive Runs (context : CompileContext π) (start : Node π) :
    Moment π → List (Moment π) → Moment π → Prop where
  | stop (now : Moment π) : Runs context start now [] now
  | step {now next last : Moment π} {later : List (Moment π)} (first : Next context start now next)
      (rest : Runs context start next later last) : Runs context start now (next :: later) last

namespace Runs

variable {context : CompileContext π} {start : Node π} {now next last : Moment π}
  {moments more : List (Moment π)}

theorem single (h : Next context start now next) : Runs context start now [next] next :=
  .step h (.stop next)

theorem append (h : Runs context start now moments next) (h' : Runs context start next more last) :
    Runs context start now (moments ++ more) last := by
  induction h with
  | stop => exact h'
  | step first _ ih => exact .step first (ih h')

theorem getLastD_eq (h : Runs context start now moments last) : moments.getLastD now = last := by
  induction h with
  | stop => rfl
  | @step now next last later _ _ ih => rw [List.getLastD_cons, ih]

theorem last_mem (h : Runs context start now moments last) : last ∈ now :: moments := by
  induction h with
  | stop => exact List.mem_singleton_self _
  | step _ _ ih => exact List.mem_cons_of_mem _ ih

/-- What every operation keeps is kept by a run: it holds at each of the moments. -/
theorem keeps {P : Moment π → Prop}
    (kept : ∀ now next, Next context start now next → P now → P next)
    (h : Runs context start now moments last) (holds : P now) : ∀ m ∈ now :: moments, P m := by
  induction h with
  | stop => exact List.forall_mem_singleton.2 holds
  | step first _ ih => exact List.forall_mem_cons.2 ⟨holds, ih (kept _ _ first holds)⟩

end Runs

end Moment

open Moment

/-! ### Chains -/

/-- The moments while layers are taken off the last node of a path. -/
def Chain.moments (context : CompileContext π) :
    Nat → List (Node π) → Node π → Adapter π → Ledger → List (Moment π)
  | 0, _, _, _, _ => []
  | room + 1, path, node, adapter, s =>
    if adapter.modifier? node = none then []
    else
      let asked := (ask (adapter.inner node) s).2
      ⟨path, asked⟩ ::
        match (ask (adapter.inner node) s).1 with
        | .error _ | .ok none => []
        | .ok (some inner) =>
          if inner.id ∈ asked.active then []
          else
            let path := path ++ [inner]
            let begun := (beginWork inner asked).2
            let known := (resolve context inner begun).2
            ⟨path, begun⟩ :: ⟨path, known⟩ ::
              match (context.registry.resolve inner).value with
              | none => [⟨path, (report (.unclaimedInner inner.typeName) known).2⟩]
              | some next => moments context room path inner next known

section Loops

variable {context : CompileContext π}

/-- The loop that takes layers off goes through its moments. The path gets longer by the nodes that
work is started on, and if the loop ends at a base it leads there. -/
theorem Compile.Loops.runs (start : Node π) {peeled peeled' : Peeled π} {node : Node π}
    {adapter : Adapter π} {s t : Ledger} {stop : Except CompileFailure (ChainEnd π)}
    (h : Loops context peeled node adapter s peeled' stop t) {room : Nat}
    (left : peeled.layers.length + room = context.options.maxDepth)
    (claims : (context.registry.resolve node).value = some adapter) {path : List (Node π)}
    (here : path.getLast? = some node) :
    ∃ more, Runs context start ⟨path, s⟩ (Chain.moments context room path node adapter s)
        ⟨path ++ more, t⟩ ∧ peeled'.entered = peeled.entered ++ more.map (·.id) ∧
      ∀ base baseAdapter modifier, stop = .ok (.base base baseAdapter modifier) →
        (path ++ more).getLast? = some base := by
  -- The path stays as it is where no work is started.
  have stays {path : List (Node π)} {s t : Ledger} {moments : List (Moment π)}
      (runs : Runs context start ⟨path, s⟩ moments ⟨path, t⟩) (ids : List Identity)
      {stop : Except CompileFailure (ChainEnd π)}
      (atBase : ∀ base baseAdapter modifier, stop = .ok (.base base baseAdapter modifier) →
        path.getLast? = some base) :
      ∃ more, Runs context start ⟨path, s⟩ moments ⟨path ++ more, t⟩ ∧
        ids = ids ++ more.map (·.id) ∧
        ∀ base baseAdapter modifier, stop = .ok (.base base baseAdapter modifier) →
          (path ++ more).getLast? = some base := by
    refine ⟨[], ?_, (List.append_nil ids).symm, ?_⟩ <;> rwa [List.append_nil]
  have isLayer {node : Node π} {adapter : Adapter π} {modifier : Modifier}
      (wrapped : adapter.modifier? node = some modifier) : adapter.modifier? node ≠ none :=
    Option.ne_none_iff_exists'.2 ⟨modifier, wrapped⟩
  induction h generalizing room path with
  | @plain peeled node adapter s plain =>
    have idle : Chain.moments context room path node adapter s = [] := by
      cases room <;> simp only [Chain.moments, if_pos plain]
    rw [idle]
    refine stays (.stop _) _ ?_
    rintro _ _ _ ⟨⟩
    exact here
  | full wrapped full =>
    obtain rfl : room = 0 := by omega
    exact stays (.stop _) _ nofun
  | failed wrapped fits answer =>
    obtain ⟨room, rfl⟩ := Nat.exists_eq_succ_of_ne_zero (by omega : room ≠ 0)
    simp only [Chain.moments, if_neg (isLayer wrapped), ask_of_error answer]
    exact stays (.single (.asked answer)) _ nofun
  | hollow wrapped fits answer =>
    obtain ⟨room, rfl⟩ := Nat.exists_eq_succ_of_ne_zero (by omega : room ≠ 0)
    simp only [Chain.moments, if_neg (isLayer wrapped), ask_of_ok answer]
    refine stays (.single (.asked answer)) _ ?_
    rintro _ _ _ ⟨⟩
    exact here
  | reentered wrapped fits answer again =>
    obtain ⟨room, rfl⟩ := Nat.exists_eq_succ_of_ne_zero (by omega : room ≠ 0)
    simp only [Chain.moments, if_neg (isLayer wrapped), ask_of_ok answer, if_pos again]
    exact stays (.single (.asked answer)) _ nofun
  | @unclaimed peeled node inner adapter modifier s supply wrapped fits answer new nobody =>
    obtain ⟨room, rfl⟩ := Nat.exists_eq_succ_of_ne_zero (by omega : room ≠ 0)
    simp only [Chain.moments, if_neg (isLayer wrapped), ask_of_ok answer, if_neg new, nobody]
    have onward : GoesOn context.registry start path inner :=
      goesOn_of_leads here (.inside claims wrapped ⟨s.supply, by rw [answer]⟩)
    refine ⟨[inner], ?_, rfl, nofun⟩
    exact .step (.asked answer) (.step (.begins onward new)
      (.step (.resolves _ _ inner) (.single (.reports _ _ _))))
  | @layer peeled peeled' node inner adapter next modifier s t supply stop wrapped fits answer new
      claims' rest ih =>
    obtain ⟨room, rfl⟩ := Nat.exists_eq_succ_of_ne_zero (by omega : room ≠ 0)
    simp only [Chain.moments, if_neg (isLayer wrapped), ask_of_ok answer, if_neg new, claims']
    have onward : GoesOn context.registry start path inner :=
      goesOn_of_leads here (.inside claims wrapped ⟨s.supply, by rw [answer]⟩)
    have atInner : (path ++ [inner]).getLast? = some inner := by simp
    obtain ⟨more, runs, entered, atBase⟩ :=
      @ih room (by change peeled.layers.length + 1 + room = _; omega) claims' _ atInner
    rw [List.append_assoc] at runs atBase
    refine ⟨inner :: more, ?_, ?_, atBase⟩
    · exact .step (.asked answer) (.step (.begins onward new) (.step (.resolves _ _ inner) runs))
    · rw [entered]
      simp [entering]

end Loops

/-! ### Structures -/

/-- The moments while a plan is carried out at the end of a path, if those while a part is compiled
are `during`. -/
def Plan.moments {α : Type} (child : Node π → CompileM NodeSchema)
    (during : Node π → Ledger → List (Moment π)) (path : List (Node π)) :
    Plan π α → Ledger → List (Moment π)
  | .done _, _ => []
  | .ask answer next, s =>
    let asked := (Ledger.ask answer s).2
    ⟨path, asked⟩ ::
      match (Ledger.ask answer s).1 with
      | .error _ => []
      | .ok given => moments child during path (next given) asked
  | .compile part next, s =>
    during part s ++ moments child during path (next (child part s).1) (child part s).2

/-- The moments while the structure of a base at the end of a path is compiled. -/
def Structure.moments (context : CompileContext π) (child : Node π → CompileM NodeSchema)
    (during : Node π → Ledger → List (Moment π)) (path : List (Node π)) (node : Node π)
    (adapter : Adapter π) (s : Ledger) : List (Moment π) :=
  match adapter.shape? node with
  | some shape => Plan.moments child during path (ofShape context.options node adapter shape) s
  | none => [⟨path, (report (.shapeless adapter.vendor node.typeName) s).2⟩]

section Structures

variable {context : CompileContext π} {start : Node π} {child : Node π → CompileM NodeSchema}
  {during : Node π → Ledger → List (Moment π)} {path : List (Node π)}

/-- A plan is carried out through its moments, if the parts that the run compiles are. -/
theorem Plan.runs {α : Type} (plan : Plan π α) {s : Ledger}
    (parts : ∀ part t, Plan.Visits child plan s part t →
      Runs context start ⟨path, t⟩ (during part t) ⟨path, (child part t).2⟩) :
    Runs context start ⟨path, s⟩ (Plan.moments child during path plan s)
      ⟨path, (Structure.carryOut child plan s).2⟩ := by
  induction plan generalizing s with
  | done value => exact .stop _
  | ask answer next ih =>
    rcases given : answer s.supply with ⟨error | value, supply⟩
    · rw [Structure.carryOut_ask_of_error child next given]
      simp only [Plan.moments, ask_of_error given]
      exact .single (.asked given)
    · rw [Structure.carryOut_ask_of_ok child next given]
      simp only [Plan.moments, ask_of_ok given]
      exact .step (.asked given) (ih value fun part t visits => parts part t (.ask given visits))
  | compile part next ih =>
    rw [Structure.carryOut_compile]
    exact (parts part s .here).append (ih _ fun other t visits => parts other t (.later visits))

/-- Where the run of a plan comes to a part is a moment of the run, and so are the moments while the
part is compiled. -/
theorem Plan.moments_of_visits {α : Type} {plan : Plan π α} {s t : Ledger} {part : Node π}
    (visits : Plan.Visits child plan s part t)
    (parts : ∀ part t, Plan.Visits child plan s part t →
      Runs context start ⟨path, t⟩ (during part t) ⟨path, (child part t).2⟩) :
    ⟨path, t⟩ ∈ ⟨path, s⟩ :: Plan.moments child during path plan s ∧
      during part t ⊆ Plan.moments child during path plan s := by
  induction visits with
  | here => exact ⟨List.mem_cons_self, fun m mem => List.mem_append_left _ mem⟩
  | later _ ih =>
    obtain ⟨made, among⟩ := ih fun part t visits => parts part t (.later visits)
    refine ⟨?_, fun m mem => List.mem_append_right _ (among mem)⟩
    rcases List.mem_cons.1 made with same | made
    · rw [same]
      exact List.mem_append_left _ (parts _ _ .here).last_mem
    · exact List.mem_cons_of_mem _ (List.mem_append_right _ made)
  | ask gives _ ih =>
    obtain ⟨made, among⟩ := ih fun part t visits => parts part t (.ask gives visits)
    simp only [Plan.moments, ask_of_ok gives]
    exact ⟨List.mem_cons_of_mem _ made, fun m mem => List.mem_cons_of_mem _ (among mem)⟩

/-- The structure of a base is compiled through its moments, if the parts are to which it leads. -/
theorem Structure.runs {node : Node π} {adapter : Adapter π} {s : Ledger}
    (claims : (context.registry.resolve node).value = some adapter)
    (bare : adapter.modifier? node = none ∨ Answer.Gives (adapter.inner node) none)
    (parts : ∀ part t, Leads context.registry node part →
      Runs context start ⟨path, t⟩ (during part t) ⟨path, (child part t).2⟩) :
    Runs context start ⟨path, s⟩ (Structure.moments context child during path node adapter s)
      ⟨path, (Structure.compile context child node adapter s).2⟩ := by
  cases seen : adapter.shape? node with
  | none =>
    rw [Structure.moments, Structure.compile, seen]
    exact .single (.reports _ _ _)
  | some shape =>
    rw [Structure.moments, Structure.compile, seen]
    refine Plan.runs _ fun part t visits => parts part t ?_
    exact .part claims bare seen (Structure.extracts_of_mentions visits.mentions)

end Structures

/-! ### Nodes -/

/-- The moments while schemas are stored as the definitions of nodes, one after the other. -/
def Ledger.storing (path : List (Node π)) : List (Identity × Json.Fields) → Ledger → List (Moment π)
  | [], _ => []
  | (id, schema) :: rest, s =>
    ⟨path, (define id schema s).2⟩ :: storing path rest (define id schema s).2

/-- The moments while schemas are stored along a chain and work on its nodes is ended: `path` leads
to the end of the chain, and `outer` is the path of the call. -/
def Compile.completing (path outer : List (Node π)) (ids : List Identity)
    (entries : List (Identity × Json.Fields)) (s : Ledger) : List (Moment π) :=
  storing path entries s ++ [⟨outer, finished ids entries s⟩]

/-- The moments while work on nodes is ended and they are given up. -/
def Compile.givingUp (outer : List (Node π)) (ids : List Identity) (failure : CompileFailure)
    (s : Ledger) : List (Moment π) :=
  let ended := (endWork ids s).2
  let reported := (report (.givenUp failure) ended).2
  ⟨outer, ended⟩ :: ⟨outer, reported⟩ :: storing outer (ids.map fun id => (id, [])) reported

/-- The moments from where the layers of a node have been taken off to the end of its
compilation. -/
def Compile.closing (context : CompileContext π) (child : Node π → CompileM NodeSchema)
    (during : Node π → Ledger → List (Moment π)) (path outer : List (Node π)) (peeled : Peeled π) :
    Except CompileFailure (ChainEnd π) → Ledger → List (Moment π)
  | .error failure, s => givingUp outer peeled.entered failure s
  | .ok (.base node adapter modifier), s =>
    let s := noted node adapter peeled.entered s
    ⟨path, s⟩ :: (Structure.moments context child during path node adapter s ++
      match Structure.compile context child node adapter s with
      | (.ok core, t) =>
        completing path outer peeled.entered (storedAlong peeled.layers.reverse
          (.base node adapter modifier) (core.addLayer adapter node modifier)) t
      | (.error failure, t) => givingUp outer peeled.entered failure t)
  | .ok (.reentered node), s =>
    let ((schema, bounds), t) := refer context node s
    ⟨path, t⟩ :: completing path outer peeled.entered
      (storedAlong peeled.layers.reverse (.reentered node) { body := schema, bounds }) t
  | .ok .unclaimed, s =>
    completing path outer peeled.entered (storedAlong peeled.layers.reverse .unclaimed .any) s

/-- The moments while a node of an adapter is compiled at the end of a path. -/
def Compile.claimedMoments (context : CompileContext π) (child : Node π → CompileM NodeSchema)
    (during : List (Node π) → Node π → Ledger → List (Moment π)) (outer : List (Node π))
    (node : Node π) (adapter : Adapter π) (s : Ledger) : List (Moment π) :=
  let begun : Moment π := ⟨outer ++ [node], (beginWork node s).2⟩
  let loop := Chain.moments context context.options.maxDepth begun.path node adapter begun.books
  let path := (loop.getLastD begun).path
  let ((peeled, stop), t) :=
    peel context context.options.maxDepth ⟨[], [node.id], false⟩ node adapter begun.books
  begun :: (loop ++ closing context child (during path) path outer peeled stop t)

/-- The moments while a node that may have this many levels of nodes is compiled at the end of a
path. -/
def Compile.moments (context : CompileContext π) :
    Nat → List (Node π) → Node π → Ledger → List (Moment π)
  | levels, path, node, s =>
    if node.id ∈ s.active then [⟨path, (refer context node s).2⟩]
    else
      match levels with
      | 0 => [⟨path, (report (.tooDeep context.options.maxDepth node.typeName) s).2⟩]
      | levels + 1 =>
        let known := (resolve context node s).2
        ⟨path, known⟩ ::
          match (context.registry.resolve node).value with
          | none => [⟨path, (report (.unclaimed node.typeName) known).2⟩]
          | some adapter =>
            claimedMoments context (Compile.node context levels) (moments context levels) path node
              adapter known

namespace Compile

variable {context : CompileContext π} {start : Node π} {child : Node π → CompileM NodeSchema}

/-- Schemas are stored through the moments of that. -/
theorem runs_storing (path : List (Node π)) (entries : List (Identity × Json.Fields)) (s : Ledger) :
    Runs context start ⟨path, s⟩ (storing path entries s)
      ⟨path, { s with definitions := stored s.names s.definitions entries }⟩ := by
  induction entries generalizing s with
  | nil => exact .stop _
  | cons entry rest ih =>
    obtain ⟨id, schema⟩ := entry
    have first : Next context start ⟨path, s⟩ ⟨path, (define id schema s).2⟩ :=
      .defines path s id schema
    rw [storing]
    refine .step first ?_
    rw [define_apply]
    exact ih _

/-- Work on the last nodes of a path is ended through the moments of that. -/
theorem runs_completing (outer left : List (Node π)) (entries : List (Identity × Json.Fields))
    (s : Ledger) :
    Runs context start ⟨outer ++ left, s⟩
      (completing (outer ++ left) outer (left.map (·.id)) entries s)
      ⟨outer, finished (left.map (·.id)) entries s⟩ :=
  (runs_storing _ entries s).append (.single (.ends outer left _))

/-- The last nodes of a path are given up through the moments of that. -/
theorem runs_givingUp (outer left : List (Node π)) (failure : CompileFailure) (s : Ledger) :
    Runs context start ⟨outer ++ left, s⟩ (givingUp outer (left.map (·.id)) failure s)
      ⟨outer, lost (left.map (·.id)) failure s⟩ :=
  .step (.ends outer left s) (.step (.reports _ _ _) (runs_storing outer _ _))

/-- The moments of a claimed node are those of the loop that takes its layers off, which end where
the loop has arrived, and those after that. -/
theorem claimedMoments_split (start : Node π) (child : Node π → CompileM NodeSchema)
    (during : List (Node π) → Node π → Ledger → List (Moment π)) (outer : List (Node π))
    {node : Node π} {adapter : Adapter π} {s t : Ledger}
    (claims : (context.registry.resolve node).value = some adapter)
    {peeled : Peeled π} {stop : Except CompileFailure (ChainEnd π)}
    (peels : peel context context.options.maxDepth ⟨[], [node.id], false⟩ node adapter
      (beginWork node s).2 = ((peeled, stop), t)) :
    ∃ left loop, claimedMoments context child during outer node adapter s =
        ⟨outer ++ [node], (beginWork node s).2⟩ ::
          (loop ++ closing context child (during (outer ++ left)) (outer ++ left) outer peeled
            stop t) ∧
      Runs context start ⟨outer ++ [node], (beginWork node s).2⟩ loop ⟨outer ++ left, t⟩ ∧
      peeled.entered = left.map (·.id) ∧
      ∀ base baseAdapter modifier, stop = .ok (.base base baseAdapter modifier) →
        (outer ++ left).getLast? = some base := by
  have loops := @loops_peel _ context context.options.maxDepth ⟨[], [node.id], false⟩ node
    adapter (beginWork node s).2 (Nat.zero_add _)
  rw [peels] at loops
  have here : (outer ++ [node]).getLast? = some node := by simp
  obtain ⟨more, runs, entered, atBase⟩ := loops.runs start (Nat.zero_add _) claims here
  have split : outer ++ [node] ++ more = outer ++ node :: more := List.append_assoc ..
  rw [split] at runs atBase
  refine ⟨node :: more, _, ?_, runs, entered, atBase⟩
  simp only [claimedMoments, peels, runs.getLastD_eq]

section Claimed

variable {during : List (Node π) → Node π → Ledger → List (Moment π)} {outer : List (Node π)}
  {node : Node π} {adapter : Adapter π} {s t u : Ledger} (new : node.id ∉ s.active)
  (claims : (context.registry.resolve node).value = some adapter)
  (onward : GoesOn context.registry start outer node)
include new claims onward

/-- A claimed node is compiled through its moments, if that is so from where its layers have been
taken off. -/
theorem runs_of_closing {peeled : Peeled π} {stop : Except CompileFailure (ChainEnd π)}
    (peels : peel context context.options.maxDepth ⟨[], [node.id], false⟩ node adapter
      (beginWork node s).2 = ((peeled, stop), t))
    (closes : ∀ left, peeled.entered = left.map (·.id) →
      (∀ base baseAdapter modifier, stop = .ok (.base base baseAdapter modifier) →
        (outer ++ left).getLast? = some base) →
      Runs context start ⟨outer ++ left, t⟩
        (closing context child (during (outer ++ left)) (outer ++ left) outer peeled stop t)
        ⟨outer, u⟩) :
    Runs context start ⟨outer, s⟩ (claimedMoments context child during outer node adapter s)
      ⟨outer, u⟩ := by
  obtain ⟨left, loop, split, runs, entered, atBase⟩ :=
    claimedMoments_split start child during outer claims peels
  rw [split]
  exact .step (.begins onward new) (runs.append (closes left entered atBase))

/-- A claimed node is compiled through its moments, if parts are. -/
theorem runs_claimedMoments
    (parts : ∀ path part t, GoesOn context.registry start path part →
      Runs context start ⟨path, t⟩ (during path part t) ⟨path, (child part t).2⟩) :
    Runs context start ⟨outer, s⟩ (claimedMoments context child during outer node adapter s)
      ⟨outer, (claimed context child node adapter s).2⟩ := by
  have outcome := claimed_outcome context child node adapter new
  generalize claimed context child node adapter s = result at outcome ⊢
  obtain ⟨c, u⟩ := result
  -- The parts of a base lie on the path that leads to it.
  have structured {layers : List (PeeledLayer π)} {isOptional : Bool} {base : Node π}
      {baseAdapter : Adapter π} {modifier : Option Modifier} {left : List (Node π)} {t : Ledger}
      (peels : Peels context node adapter s layers isOptional
        (.ok (.base base baseAdapter modifier)) (left.map (·.id)) t)
      (leads : (outer ++ left).getLast? = some base) :
      Runs context start ⟨outer ++ left, t⟩
        (⟨outer ++ left, noted base baseAdapter (left.map (·.id)) t⟩ ::
          Structure.moments context child (during (outer ++ left)) (outer ++ left) base baseAdapter
            (noted base baseAdapter (left.map (·.id)) t))
        ⟨outer ++ left, (Structure.compile context child base baseAdapter
          (noted base baseAdapter (left.map (·.id)) t)).2⟩ := by
    obtain ⟨claimed, bare⟩ := peels.unwraps.bare_base claims
    refine .step (.notes t _ fun id mem => ?_) (Structure.runs claimed bare fun part t isPart => ?_)
    · rw [List.map_append]
      exact List.mem_append_right _ mem
    · exact parts _ part t (goesOn_of_leads leads isPart)
  cases outcome with
  | success peels atEnd =>
    refine runs_of_closing new claims onward peels.runs fun left entered atBase => ?_
    obtain rfl := entered
    cases atEnd with
    | built runs =>
      have first := structured peels (atBase _ _ _ rfl)
      rw [runs] at first
      simp only [closing, runs, List.reverse_reverse]
      exact first.append (runs_completing outer left _ _)
    | looped =>
      simp only [closing, List.reverse_reverse]
      exact .step (.refers _ _ _) (runs_completing outer left _ _)
    | unclaimed =>
      simp only [closing, List.reverse_reverse]
      exact runs_completing outer left _ _
  | givenUp peels =>
    refine runs_of_closing new claims onward peels.runs fun left entered _ => ?_
    obtain rfl := entered
    exact runs_givingUp outer left _ _
  | broken peels runs =>
    refine runs_of_closing new claims onward peels.runs fun left entered atBase => ?_
    obtain rfl := entered
    have first := structured peels (atBase _ _ _ rfl)
    rw [runs] at first
    simp only [closing, runs]
    exact first.append (runs_givingUp outer left _ _)

end Claimed

/-- The moments of the compilation of a node lead from the books before it to those after it, and at
the end the path is what it was. -/
theorem runs_moments (context : CompileContext π) (start : Node π) (levels : Nat)
    {path : List (Node π)} {node : Node π} (s : Ledger)
    (onward : GoesOn context.registry start path node) :
    Runs context start ⟨path, s⟩ (moments context levels path node s)
      ⟨path, (Compile.node context levels node s).2⟩ := by
  -- A part is compiled with one level less, at the end of the path that leads to its base.
  induction levels generalizing path node s with
  | zero =>
    by_cases active : node.id ∈ s.active
    · rw [Call.node_of_active active, moments, if_pos active]
      exact .single (.refers _ _ _)
    · rw [Compile.node, step_none context active, moments, if_neg active]
      exact .single (.reports _ _ _)
  | succ levels ih =>
    by_cases active : node.id ∈ s.active
    · rw [Call.node_of_active active, moments, if_pos active]
      exact .single (.refers _ _ _)
    · rw [moments, if_neg active]
      have known : Next context start ⟨path, s⟩ ⟨path, (resolve context node s).2⟩ :=
        .resolves path s node
      cases claims : (context.registry.resolve node).value with
      | none =>
        rw [Compile.node, step_of_unclaimed context active claims]
        exact .step known (.single (.reports _ _ _))
      | some adapter =>
        rw [Compile.node, step_of_claimed context active claims]
        exact .step known (runs_claimedMoments active claims onward
          fun path part t goesOn => ih t goesOn)

end Compile

namespace Call

variable {context : CompileContext π} {root call inner : Call π}

/-- The moments of a call that is made at the end of a path. -/
def moments (context : CompileContext π) (path : List (Node π)) (call : Call π) :
    List (Moment π) :=
  Compile.moments context call.levels path call.node call.books

/-- A call goes through its moments. -/
theorem runs (call : Call π) {start : Node π} {path : List (Node π)}
    (onward : GoesOn context.registry start path call.node) :
    Runs context start ⟨path, call.books⟩ (call.moments context path) ⟨path, call.after context⟩ :=
  runs_moments context start call.levels call.books onward

/-- A call that is made for a part is made at a moment of the call that makes it, and its moments
are moments of that call. -/
theorem Spawns.moments (h : Spawns context call inner) {start : Node π} {path : List (Node π)}
    (onward : GoesOn context.registry start path call.node) :
    ∃ more, GoesOn context.registry start more inner.node ∧
      ⟨more, inner.books⟩ ∈ call.moments context path ∧
      inner.moments context more ⊆ call.moments context path := by
  obtain ⟨new, claims, peels, seen, visits⟩ := h
  rename_i levels node base part adapter baseAdapter layers isOptional modifier ids shape s t u
  obtain ⟨left, loop, split, -, -, atBase⟩ := claimedMoments_split start
    (Compile.node context levels) (Compile.moments context levels) path claims peels.runs
  obtain ⟨claimed, bare⟩ := peels.unwraps.bare_base claims
  have leads (other : Node π) (v : Ledger)
      (visits : Plan.Visits (Compile.node context levels)
        (Structure.ofShape context.options base baseAdapter shape)
        (noted base baseAdapter ids t) other v) :
      GoesOn context.registry start (path ++ left) other :=
    goesOn_of_leads (atBase _ _ _ rfl)
      (.part claimed bare seen (Structure.extracts_of_mentions visits.mentions))
  obtain ⟨made, among⟩ := Plan.moments_of_visits visits fun other v visits =>
    runs_moments context start levels v (leads other v visits)
  -- The structure is compiled after the family of the base has been noted.
  have last : ∀ m ∈ ⟨path ++ left, noted base baseAdapter ids t⟩ ::
      Plan.moments (Compile.node context levels) (Compile.moments context levels (path ++ left))
        (path ++ left) (Structure.ofShape context.options base baseAdapter shape)
        (noted base baseAdapter ids t),
      m ∈ Call.moments context path ⟨levels + 1, node, s⟩ := by
    intro m mem
    rw [Call.moments, Compile.moments, if_neg new]
    simp only [claims]
    rw [resolved] at split
    rw [split, closing, Structure.moments, seen]
    refine List.mem_cons_of_mem _ (List.mem_cons_of_mem _ (List.mem_append_right _ ?_))
    exact List.mem_append_left _ mem
  exact ⟨path ++ left, leads part u visits, last _ made,
    fun m mem => last m (List.mem_cons_of_mem _ (among mem))⟩

/-- Every call of a run is made at a moment of the run, and its moments are moments of the run. -/
theorem Within.moments (h : Within context root call) :
    ∃ path, GoesOn context.registry root.node path call.node ∧
      ⟨path, call.books⟩ ∈ ⟨[], root.books⟩ :: root.moments context [] ∧
      call.moments context path ⊆ root.moments context [] := by
  induction h with
  | refl => exact ⟨[], rfl, List.mem_cons_self, List.Subset.refl _⟩
  | tail _ last ih =>
    obtain ⟨path, onward, -, among⟩ := ih
    obtain ⟨more, goesOn, made, during⟩ := last.moments onward
    exact ⟨more, goesOn, List.mem_cons_of_mem _ (among made), List.Subset.trans during among⟩

end Call

end SchemaBridge
