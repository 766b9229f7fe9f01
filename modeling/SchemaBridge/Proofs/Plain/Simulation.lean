import SchemaBridge.Proofs.Compile.Soundness
import SchemaBridge.Proofs.Plain.Acyclic
import SchemaBridge.Proofs.Plain.Recursion

/-!
# Compilation of acyclic schemas is plain

The compilation of a node of an acyclic schema never meets a node in progress, because the nodes in
progress are those on the way to it, and perhaps others that the schema has nothing to do with. So
it asks the same questions in the same order as the plain compilation, comes to the same assemblies,
and leaves the books as they were but for the supply of identities and the reports.

## Main definitions

* `Plain.Agrees` : a run on the books comes to what a plain run comes to.

## Main results

* `Plain.peel_agrees`, `Plain.carryOut_agrees`, `Plain.node_agrees` : the two compilations agree.
-/

namespace SchemaBridge.Plain

open Arrival Chain Compile CompileM Ledger Stateful

variable {π α : Type}

/-- A run that starts on some books comes to what a plain run comes to, and only uses identities up
and reports. -/
structure Agrees (s : Ledger) (answer : α × Ledger) (plain : α × Nat) : Prop where
  value : answer.1 = plain.1
  books : ∃ events, answer.2 = { s with supply := plain.2, events := events ++ s.events }
  grows : s.supply ≤ plain.2

/-- Another run follows one that agrees. -/
theorem Agrees.followed {s t : Ledger} {answer : α × Ledger} {plain : α × Nat}
    (h : Agrees t answer plain) {supply : Nat} (events : List Event) (grows : s.supply ≤ supply)
    (between : t = { s with supply, events := events ++ s.events }) : Agrees s answer plain := by
  subst between
  obtain ⟨later, books⟩ := h.books
  exact ⟨h.value, ⟨later ++ events, by rw [books, List.append_assoc]⟩, Nat.le_trans grows h.grows⟩

/-! ### Questions and plans -/

section

variable {child : Node π → CompileM NodeSchema} {plain : Node π → Fresh NodeSchema}

/-- A plan is carried out plainly if every part that it may compile agrees. -/
theorem carryOut_agrees (plan : Plan π α) {before : Nat} {s : Ledger} (le : before ≤ s.supply)
    (grows : plan.Grows)
    (parts : ∀ now part, Plan.Offers before plan now part → ∀ supply events, now ≤ supply →
      Agrees { s with supply, events } (child part { s with supply, events }) (plain part supply)) :
    Agrees s (Structure.carryOut child plan s) (carryOut plain plan s.supply) := by
  induction plan generalizing before s with
  | done value => exact ⟨rfl, ⟨[], rfl⟩, Nat.le_refl _⟩
  | ask answer next ih =>
    have up := grows.1 s.supply
    rcases result : answer s.supply with ⟨error | given, supply⟩
    · rw [Structure.carryOut_ask_of_error child next result,
        carryOut_ask_of_error plain next result]
      rw [result] at up
      exact ⟨rfl, ⟨[], rfl⟩, up⟩
    · rw [Structure.carryOut_ask_of_ok child next result, carryOut_ask_of_ok plain next result]
      rw [result] at up
      refine (ih given (s := { s with supply }) (Nat.le_refl _) (grows.2 given) ?_).followed
        [] up rfl
      exact fun now part offers => parts now part (.ask le result offers)
  | compile part next ih =>
    have here := parts s.supply part (.here le) s.supply s.events (Nat.le_refl _)
    obtain ⟨events, books⟩ := here.books
    rw [Structure.carryOut_compile, carryOut_compile, here.value, books]
    refine (ih (plain part s.supply).1 (s := { s with
      supply := (plain part s.supply).2, events := events ++ s.events }) (Nat.le_refl _)
      (grows _) ?_).followed events here.grows rfl
    exact fun now part offers => parts now part (.later (Nat.le_trans le here.grows) offers)

end

/-! ### Chains -/

section

variable {context : CompileContext π} {root a : Arrival π}

/-- The base of a chain is on a path, and the nodes in progress are the base itself, those on the
way to it, and older ones. -/
structure AtBase (context : CompileContext π) (root b : Arrival π) (old : List Identity)
    (adapter : Adapter π) (supply : Nat) (active : List Identity) : Prop where
  claims : (context.registry.resolve b.node).value = some adapter
  le : b.supply ≤ supply
  onPath : ∃ path, OnPath context root b path ∧ active = b.node.id :: (path ++ old)
  bare : adapter.modifier? b.node = none ∨
    ∃ asked answered, b.supply ≤ asked ∧ adapter.inner b.node asked = (.ok none, answered)

/-- The layers of a node are taken off as they are plainly. -/
def PeelAgrees (context : CompileContext π) (root a : Arrival π) (old : List Identity)
    (adapter : Adapter π) (room : Nat) (peeled : Peeled π) (s : Ledger) : Prop :=
  ∃ layers isOptional stop supply more events,
    peel context.registry room a.node adapter s.supply = (((layers, isOptional), stop), supply) ∧
    Chain.peel context room peeled a.node adapter s =
      ((⟨layers.reverse ++ peeled.layers, peeled.entered ++ more,
          peeled.isOptional || isOptional⟩, stop),
        { s with
          active := more.reverse ++ s.active, supply := supply, events := events ++ s.events }) ∧
    s.supply ≤ supply ∧ (∀ again, stop ≠ .ok (.reentered again)) ∧
    ∀ base baseAdapter modifier, stop = .ok (.base base baseAdapter modifier) →
      ∃ b, b.node = base ∧ AtBase context root b old baseAdapter supply (more.reverse ++ s.active)

variable {path old : List Identity} {adapter : Adapter π} {s : Ledger}

/-- A node without modifier is its own base. -/
private theorem peel_agrees_of_plain (room : Nat) (peeled : Peeled π)
    (onPath : OnPath context root a path)
    (claims : (context.registry.resolve a.node).value = some adapter) (le : a.supply ≤ s.supply)
    (active : s.active = a.node.id :: (path ++ old)) (plain : adapter.modifier? a.node = none) :
    PeelAgrees context root a old adapter room peeled s := by
  refine ⟨[], false, _, s.supply, [], [], peel_of_plain _ _ plain, ?_, Nat.le_refl _,
    by rintro _ ⟨⟩, ?_⟩
  · simp [Chain.peel_of_plain _ _ _ plain]
  · rintro base baseAdapter modifier ⟨⟩
    exact ⟨a, rfl, claims, le, ⟨path, onPath, active⟩, .inl plain⟩

/-- Older nodes in progress are none of those that are reached from the root. -/
def Apart (context : CompileContext π) (root : Arrival π) (old : List Identity) : Prop :=
  ∀ a, Reaches context root a → a.node.id ∉ old

theorem Apart.notMem (apart : Apart context root old) (acyclic : Acyclic context root)
    (onPath : OnPath context root a path) : a.node.id ∉ path ++ old :=
  List.not_mem_append (onPath.notMem acyclic) (apart a onPath.reached)

/-- The layers of a node that is on a path are taken off as they are plainly. -/
theorem peel_agrees (acyclic : Acyclic context root) (apart : Apart context root old) (room : Nat)
    (peeled : Peeled π) (onPath : OnPath context root a path)
    (claims : (context.registry.resolve a.node).value = some adapter) (le : a.supply ≤ s.supply)
    (active : s.active = a.node.id :: (path ++ old)) :
    PeelAgrees context root a old adapter room peeled s := by
  induction room generalizing peeled a path adapter s with
  | zero =>
    cases wrapped : adapter.modifier? a.node with
    | none => exact peel_agrees_of_plain 0 peeled onPath claims le active wrapped
    | some modifier =>
      refine ⟨[], false, _, s.supply, [], [], peel_zero _ wrapped, ?_, Nat.le_refl _,
        by rintro _ ⟨⟩, by rintro _ _ _ ⟨⟩⟩
      simp [Chain.peel_zero _ _ wrapped]
  | succ room ih =>
    cases wrapped : adapter.modifier? a.node with
    | none => exact peel_agrees_of_plain (room + 1) peeled onPath claims le active wrapped
    | some modifier =>
      have up := (acyclic.grows a onPath.reached adapter claims).1 s.supply
      rcases answer : adapter.inner a.node s.supply with ⟨error | _ | inner, supply⟩
      all_goals rw [answer] at up
      · refine ⟨[], _, _, supply, [], [], peel_of_error _ _ wrapped answer, ?_, up,
          by rintro _ ⟨⟩, by rintro _ _ _ ⟨⟩⟩
        simp [Chain.peel_of_error _ _ _ wrapped answer, noteModifier]
      · refine ⟨[], _, _, supply, [], [], peel_of_hollow _ _ wrapped answer, ?_, up,
          by rintro _ ⟨⟩, ?_⟩
        · simp [Chain.peel_of_hollow _ _ _ wrapped answer, noteModifier]
        · rintro base baseAdapter modifier ⟨⟩
          exact ⟨a, rfl, claims, Nat.le_trans le up, ⟨path, onPath, active⟩,
            .inr ⟨s.supply, supply, le, answer⟩⟩
      · have below : Below context a ⟨supply, inner⟩ := .inside claims wrapped le answer
        have onPath' := onPath.below below
        have new : inner.id ∉ s.active := active ▸ apart.notMem acyclic onPath'
        cases claims' : (context.registry.resolve inner).value with
        | none =>
          exact ⟨_, _, _, supply, [inner.id], .unclaimedInner inner.typeName ::
            (context.registry.resolve inner).events.reverse,
            peel_of_unclaimed _ _ wrapped answer claims',
            Chain.peel_of_unclaimed _ _ _ wrapped answer new claims', up, by rintro _ ⟨⟩,
            by rintro _ _ _ ⟨⟩⟩
        | some next =>
          let reports := (context.registry.resolve inner).events.reverse
          obtain ⟨layers, isOptional, stop, supply', more, events, plainly, books, up', straight,
            atBase⟩ := ih (a := ⟨supply, inner⟩)
              (entering peeled ⟨a.node, adapter, modifier⟩ inner)
              (s := { s with
                active := inner.id :: s.active, supply, events := reports ++ s.events })
              onPath' claims' (Nat.le_refl _) (by rw [active, List.cons_append])
          refine ⟨_, _, stop, supply', inner.id :: more, events ++ reports,
            peel_of_layer _ _ wrapped answer claims' plainly, ?_, Nat.le_trans up up', straight, ?_⟩
          · refine (Chain.peel_of_layer _ _ _ wrapped answer new claims').trans (books.trans ?_)
            simp [entering, noteModifier, push, Bool.or_assoc]
          · simpa using atBase

/-! ### Nodes -/

/-- Nothing is stored for nodes whose names, if they have any, are defined. -/
theorem stored_of_settled {names : Table Identity String} {definitions : Table String Json.Fields}
    {entries : List (Identity × Json.Fields)}
    (settled : ∀ entry ∈ entries, ∀ name, Table.get? names entry.1 = some name →
      Table.has definitions name = true) : stored names definitions entries = definitions := by
  induction entries with
  | nil => rfl
  | cons entry rest ih =>
    obtain ⟨id, schema⟩ := entry
    have others := ih fun other mem => settled other (List.mem_cons_of_mem _ mem)
    rw [stored]
    cases named : Table.get? names id with
    | none => exact others
    | some name =>
      dsimp only
      rw [if_pos (settled _ List.mem_cons_self name named)]
      exact others

/-- When work ends after a run that only used identities up and reported, the books are what they
were at the start, but for identities and reports. -/
theorem finished_of_opened {ids : List Identity} {s t u : Ledger} (opened : Opened ids s t)
    (sound : Sound s) {supply : Nat}
    (books : ∃ events, u = { t with supply, events := events ++ t.events })
    {entries : List (Identity × Json.Fields)} (inside : ∀ entry ∈ entries, entry.1 ∈ ids) :
    ∃ events, finished ids entries u = { s with supply, events := events ++ s.events } := by
  obtain ⟨later, rfl⟩ := books
  obtain ⟨earlier, before⟩ := opened.events
  -- Work was not yet started on the nodes at the start, so those that had a name were defined.
  have settled : stored s.names s.definitions entries = s.definitions :=
    stored_of_settled fun entry mem name named =>
      (sound.settled _ name named).resolve_left (opened.fresh _ (inside entry mem))
  refine ⟨later ++ earlier, ?_⟩
  simp only [finished, opened.filter_active, opened.families, opened.names, opened.used,
    opened.definitions, opened.nextNumber, settled, List.append_assoc, before]

theorem lost_of_opened {ids : List Identity} {s t u : Ledger} (opened : Opened ids s t)
    (sound : Sound s) {supply : Nat}
    (books : ∃ events, u = { t with supply, events := events ++ t.events })
    (failure : CompileFailure) :
    ∃ events, lost ids failure u = { s with supply, events := events ++ s.events } := by
  obtain ⟨events, result⟩ := @finished_of_opened ids s t u opened sound supply books
    (ids.map fun id => (id, [])) (by simp)
  refine ⟨.givenUp failure :: events, ?_⟩
  rw [lost, result]
  rfl

/-- The compilation of parts agrees with the plain one for every node that is on a path when the
nodes in progress are those on the way to it, and older ones. -/
def ChildAgrees (context : CompileContext π) (root : Arrival π) (old : List Identity)
    (child : Node π → CompileM NodeSchema) (plain : Node π → Fresh NodeSchema) : Prop :=
  ∀ a path s, OnPath context root a path → s.active = path ++ old → Sound s →
    a.supply ≤ s.supply → Agrees s (child a.node s) (plain a.node s.supply)

variable {child : Node π → CompileM NodeSchema} {plain : Node π → Fresh NodeSchema}

/-- The structure of a base agrees with the plain one. -/
theorem structured_agrees (acyclic : Acyclic context root)
    (agrees : ChildAgrees context root old child plain) {b : Arrival π}
    (atBase : AtBase context root b old adapter s.supply s.active) (sound : Sound s) :
    Agrees s (Structure.compile context child b.node adapter s)
      (structured context.options plain b.node adapter s.supply) := by
  obtain ⟨path, onPath, active⟩ := atBase.onPath
  cases seen : adapter.shape? b.node with
  | none =>
    rw [Structure.compile, structured, seen]
    exact ⟨rfl, ⟨[.shapeless adapter.vendor b.node.typeName], rfl⟩, Nat.le_refl _⟩
  | some shape =>
    rw [Structure.compile, structured, seen]
    refine carryOut_agrees _ atBase.le
      ((acyclic.grows b onPath.reached adapter atBase.claims).2 shape seen) ?_
    intro now part offers supply events le
    have below : Below context b ⟨now, part⟩ := .part atBase.claims atBase.bare seen offers
    exact agrees ⟨now, part⟩ _ { s with supply, events } (onPath.below below) active
      (sound.of_supply_events supply events) le

/-- The layers of a node that is not in progress are peeled off as they are plainly. -/
theorem peels_plainly (acyclic : Acyclic context root) (apart : Apart context root old)
    (onPath : OnPath context root a path)
    (claims : (context.registry.resolve a.node).value = some adapter)
    (active : s.active = path ++ old) (le : a.supply ≤ s.supply) :
    ∃ layers isOptional stop ids t, Peels context a.node adapter s layers isOptional stop ids t ∧
      peel context.registry context.options.maxDepth a.node adapter s.supply =
        (((layers, isOptional), stop), t.supply) ∧
      s.supply ≤ t.supply ∧ (∀ again, stop ≠ .ok (.reentered again)) ∧
      ∀ base baseAdapter modifier, stop = .ok (.base base baseAdapter modifier) →
        ∃ b, b.node = base ∧ AtBase context root b old baseAdapter t.supply t.active := by
  have new : a.node.id ∉ s.active := active ▸ apart.notMem acyclic onPath
  obtain ⟨layers, isOptional, stop, supply, more, events, plainly, books, up, straight, atBase⟩ :=
    peel_agrees acyclic apart context.options.maxDepth ⟨[], [a.node.id], false⟩
      (s := (beginWork a.node s).2) onPath claims le (by rw [beginWork_apply, active])
  rw [List.append_nil, Bool.false_or] at books
  exact ⟨layers, isOptional, stop, _, _, peels_of_runs new books, plainly, up, straight, atBase⟩

/-- The compilation of a claimed node agrees with the plain one. -/
theorem claimed_agrees (acyclic : Acyclic context root) (apart : Apart context root old)
    (agrees : ChildAgrees context root old child plain) (onPath : OnPath context root a path)
    (claims : (context.registry.resolve a.node).value = some adapter)
    (active : s.active = path ++ old) (sound : Sound s) (le : a.supply ≤ s.supply) :
    Agrees s (Compile.claimed context child a.node adapter s)
      (claimed context plain a.node adapter s.supply) := by
  have new : a.node.id ∉ s.active := active ▸ apart.notMem acyclic onPath
  obtain ⟨layers, isOptional, stop, ids, t, peels, plainly, up, straight, atBase⟩ :=
    peels_plainly acyclic apart onPath claims active le
  have opened := peels.opened sound
  have result := (claimed_outcome context child a.node adapter new).concludes peels
  rcases eq : Compile.claimed context child a.node adapter s with ⟨c, u⟩
  rw [eq] at result
  -- The books at the base, and the structure of the base compiled from there.
  have atNoted (base : Node π) (baseAdapter : Adapter π) (modifier : Option Modifier)
      (same : stop = .ok (.base base baseAdapter modifier)) :
      Opened ids s (noted base baseAdapter ids t) ∧
        Agrees (noted base baseAdapter ids t)
          (Structure.compile context child base baseAdapter (noted base baseAdapter ids t))
          (structured context.options plain base baseAdapter t.supply) := by
    obtain ⟨b, rfl, base⟩ := atBase _ _ _ same
    have opened' := opened.noted (((baseAdapter.shape? b.node).map Shape.bounds).getD .value)
    exact ⟨opened', structured_agrees (s := noted b.node baseAdapter ids t) acyclic agrees base
      (opened'.sound sound)⟩
  cases result with
  | givenUp =>
    rw [claimed_of_error plain context plainly rfl]
    exact ⟨rfl, lost_of_opened opened sound ⟨[], rfl⟩ _, up⟩
  | success atEnd =>
    cases atEnd with
    | looped => exact absurd rfl (straight _)
    | unclaimed =>
      rw [claimed_of_ok plain context plainly rfl]
      exact ⟨rfl, finished_of_opened opened sound ⟨[], rfl⟩ (peels.mem_of_storedAlong _), up⟩
    | @built base baseAdapter modifier assembly _ runs =>
      obtain ⟨opened', agree⟩ := atNoted base baseAdapter modifier rfl
      rw [runs] at agree
      rcases plainRuns : structured context.options plain base baseAdapter t.supply with ⟨r, later⟩
      rw [plainRuns] at agree
      obtain rfl : Except.ok assembly = r := agree.value
      rw [claimed_of_ok plain context plainly (finish_of_ok plain _ _ _ plainRuns)]
      exact ⟨rfl, finished_of_opened opened' sound agree.books (peels.mem_of_storedAlong _),
        Nat.le_trans up agree.grows⟩
  | @broken base baseAdapter _ u failure runs =>
    obtain ⟨opened', agree⟩ := atNoted _ _ _ rfl
    rw [runs] at agree
    rcases plainRuns : structured context.options plain base baseAdapter t.supply with ⟨r, later⟩
    rw [plainRuns] at agree
    obtain rfl : Except.error failure = r := agree.value
    rw [claimed_of_error plain context plainly (finish_of_error plain _ _ _ plainRuns)]
    exact ⟨rfl, lost_of_opened opened' sound agree.books _, Nat.le_trans up agree.grows⟩

/-- The compilation of a node of an acyclic schema agrees with the plain one, whenever the nodes in
progress are those on the way to it, and older ones. -/
theorem node_agrees (acyclic : Acyclic context root) (apart : Apart context root old)
    (levels : Nat) :
    ChildAgrees context root old (Compile.node context levels) (node context levels) := by
  induction levels with
  | zero =>
    intro a path s onPath active sound le
    have new : a.node.id ∉ s.active := active ▸ apart.notMem acyclic onPath
    rw [Compile.node, step_none context new]
    exact ⟨rfl, ⟨[_], rfl⟩, Nat.le_refl _⟩
  | succ levels ih =>
    intro a path s onPath active sound le
    have new : a.node.id ∉ s.active := active ▸ apart.notMem acyclic onPath
    let reports := (context.registry.resolve a.node).events.reverse
    rw [Compile.node, node]
    cases claims : (context.registry.resolve a.node).value with
    | none =>
      rw [step_of_unclaimed context new claims]
      exact ⟨rfl, ⟨.unclaimed a.node.typeName :: reports, rfl⟩, Nat.le_refl _⟩
    | some adapter =>
      rw [step_of_claimed context new claims]
      exact (claimed_agrees (s := { s with events := reports ++ s.events }) acyclic apart ih onPath
        claims active (sound.of_supply_events _ _) le).followed reports (Nat.le_refl _) rfl

end

end SchemaBridge.Plain
