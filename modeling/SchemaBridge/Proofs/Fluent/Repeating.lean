import SchemaBridge.Proofs.Fluent.Passing

/-!
# Runs of the validator from any state

What the validator comes to on a part of the data does not depend on where it stands: the steps to
the part and the issues and events before it are only ever added to. So work that comes to an end
from one state comes to the same value from every state, and reports an issue from all of them or
from none. The same holds if more nested layers may be looked at, since the limit is only noticed
where it is reached. A run can therefore be taken apart into its parts, and two runs with the same
parts can be compared.

## Main definitions

* `Fluent.Walk.ComesTo` : what work comes to from any state, and whether it is clean.
* `Fluent.Walk.Repeats` : work that does whatever other work does, from any state.

## Main results

* `Fluent.Walk.repeats_node` : the validator repeats itself, with as much room or more.
* `Fluent.Walk.Repeats.comesTo_or_fails` : work that repeats itself ends from every state or from
  none.
* `Fluent.Walk.ComesTo.of_bind` : a run is taken apart into its steps.
* `Fluent.Walk.comesTo_node` : a node comes to what its kind comes to.
* `Fluent.comesTo_of_validate` : validation that ends comes to the same from any state.
-/

namespace SchemaBridge.Fluent

open Stateful

namespace Walk

variable {γ α β : Type}

/-- The issues of an earlier state are kept in a later one, and no other issue was reported in
between if and only if the work in between was clean. -/
def Between (before after : Walk) (clean : Bool) : Prop :=
  before.issues.length ≤ after.issues.length ∧
    decide (after.issues.length = before.issues.length) = clean

/-- From any state, work comes to a value, and reports no issue if and only if it is clean. -/
def ComesTo (work : WalkM α) (a : α) (clean : Bool) : Prop :=
  ∀ s, ∃ t, work s = (.ok a, t) ∧ Between s t clean

/-- From any state, work ends in an error. -/
def Fails (work : WalkM α) : Prop := ∀ s, ∃ error t, work s = (.error error, t)

/-- Whatever work comes to from some state, the other work comes to from any state. -/
def Repeats (work again : WalkM α) : Prop :=
  ∀ s a t, work s = (.ok a, t) → ∃ clean, Between s t clean ∧ ComesTo again a clean

variable {work again : WalkM α} {a a' : α} {b : β} {clean clean' : Bool}

/-! ### States -/

theorem Between.refl (s : Walk) : Between s s true := ⟨Nat.le_refl _, by simp⟩

theorem Between.trans {s t u : Walk} (h : Between s t clean) (h' : Between t u clean') :
    Between s u (clean && clean') := by
  obtain ⟨kept, rfl⟩ := h
  obtain ⟨kept', rfl⟩ := h'
  refine ⟨Nat.le_trans kept kept', ?_⟩
  rw [← Bool.decide_and, decide_eq_decide]
  omega

/-- Issues that are all that were reported since there were none. -/
theorem Between.isEmpty_eq {s t : Walk} (h : Between s t clean) (none : s.issues = []) :
    t.issues.isEmpty = clean := by
  obtain ⟨-, rfl⟩ := h
  rw [none]
  cases t.issues <;> simp

/-! ### What work comes to -/

theorem comesTo_pure (a : α) : ComesTo (pure a) a true := fun s => ⟨s, rfl, .refl s⟩

theorem comesTo_complain (message : String) : ComesTo (complain message) () false :=
  fun _ => ⟨_, rfl, Nat.le_succ _, by simp⟩

theorem comesTo_note (event : Event) : ComesTo (note event) () true :=
  fun _ => ⟨_, rfl, Nat.le_refl _, by simp⟩

/-- Work comes to one value only. -/
theorem ComesTo.unique (h : ComesTo work a clean) (h' : ComesTo work a' clean') :
    a = a' ∧ clean = clean' := by
  obtain ⟨t, runs, -, rfl⟩ := h start
  obtain ⟨t', runs', -, rfl⟩ := h' start
  obtain ⟨same, rfl⟩ := Prod.mk.inj (runs.symm.trans runs')
  exact ⟨Except.ok.inj same, rfl⟩

theorem ComesTo.bind {after : α → WalkM β} (h : ComesTo work a clean)
    (h' : ComesTo (after a) b clean') : ComesTo (work >>= after) b (clean && clean') := by
  intro s
  obtain ⟨t, runs, between⟩ := h s
  obtain ⟨u, runs', between'⟩ := h' t
  exact ⟨u, (bind_of_ok after runs).trans runs', between.trans between'⟩

/-- A value after an issue that is reported in some case. -/
theorem comesTo_checked (broken : Bool) (message : String) (a : α) :
    ComesTo (do
      if broken then complain message
      return a) a (!broken) := by
  cases broken with
  | false => exact comesTo_pure a
  | true => exact (comesTo_complain message).bind (comesTo_pure a)

theorem comesTo_require (holds : Bool) (expected : String) (data : Json) :
    ComesTo (require holds expected data) data holds := by
  have checked :=
    comesTo_checked (!holds) ("expected " ++ expected ++ ", received " ++ data.typeWord) data
  rwa [Bool.not_not] at checked

/-- Work on a part of the value at hand, by its run on the part. -/
theorem within_apply {step : PathStep} {s t : Walk} {result : Except VendorError α}
    (runs : work { s with trail := step :: s.trail } = (result, t)) :
    Walk.within step work s = (result, { t with trail := t.trail.tail }) := by
  change ((work { s with trail := step :: s.trail }).1, _) = _
  rw [runs]

theorem ComesTo.within (h : ComesTo work a clean) (step : PathStep) :
    ComesTo (Walk.within step work) a clean := by
  intro s
  obtain ⟨t, runs, between⟩ := h { s with trail := step :: s.trail }
  exact ⟨_, within_apply runs, between⟩

/-- Work that is watched, by its run. -/
theorem noting_apply {s t : Walk} (runs : work s = (.ok a, t)) :
    Walk.noting work s = (.ok (a, decide (t.issues.length = s.issues.length)), t) := by
  have watched : Walk.noting work s = (work >>= fun b => get >>= fun t =>
      pure (b, decide (t.issues.length = s.issues.length))) s := rfl
  exact watched.trans (bind_of_ok _ runs)

theorem noting_apply_error {s t : Walk} {error : VendorError} (runs : work s = (.error error, t)) :
    Walk.noting work s = (.error error, t) := by
  have watched : Walk.noting work s = (work >>= fun b => get >>= fun t =>
      pure (b, decide (t.issues.length = s.issues.length))) s := rfl
  exact watched.trans (bind_of_error _ runs)

theorem ComesTo.noting (h : ComesTo work a clean) :
    ComesTo (Walk.noting work) (a, clean) clean := by
  intro s
  obtain ⟨t, runs, kept, rfl⟩ := h s
  exact ⟨t, noting_apply runs, kept, rfl⟩

/-- Work whose issues are dropped, by its run without earlier issues. -/
theorem attempt_apply {s t : Walk} (runs : work { s with issues := [] } = (.ok a, t)) :
    Walk.attempt work s =
      (.ok (if t.issues.isEmpty then some a else none), { s with events := t.events }) := by
  change (((work { s with issues := [] }).1).map _, _) = _
  rw [runs]
  rfl

theorem attempt_apply_error {s t : Walk} {error : VendorError}
    (runs : work { s with issues := [] } = (.error error, t)) :
    Walk.attempt work s = (.error error, { s with events := t.events }) := by
  change (((work { s with issues := [] }).1).map _, _) = _
  rw [runs]
  rfl

theorem ComesTo.attempt (h : ComesTo work a clean) :
    ComesTo (Walk.attempt work) (if clean then some a else none) true := by
  intro s
  obtain ⟨t, runs, between⟩ := h { s with issues := [] }
  have result := attempt_apply runs
  rw [between.isEmpty_eq rfl] at result
  exact ⟨_, result, Nat.le_refl _, by simp⟩

/-! ### Work that is repeated -/

theorem Repeats.of_comesTo (h : ComesTo work a clean) (h' : ComesTo again a clean) :
    Repeats work again := by
  intro s b t runs
  obtain ⟨_, runs', between⟩ := h s
  obtain ⟨same, rfl⟩ := Prod.mk.inj (runs'.symm.trans runs)
  obtain rfl := Except.ok.inj same
  exact ⟨clean, between, h'⟩

theorem repeats_of_comesTo (h : ComesTo work a clean) : Repeats work work := .of_comesTo h h

theorem repeats_pure (a : α) : Repeats (pure a) (pure a) := repeats_of_comesTo (comesTo_pure a)

theorem repeats_throw (error : VendorError) : Repeats (throw error : WalkM α) again := by
  rintro s a t ⟨⟩

/-- An answer that is there is worked on. -/
theorem lift_bind {x : Except VendorError α} (h : x = .ok a) (after : α → WalkM β) :
    (liftM x : WalkM α) >>= after = after a := by
  subst h
  rfl

theorem repeats_lift (x : Except VendorError α) : Repeats (liftM x : WalkM α) (liftM x) := by
  cases x with
  | error error => exact repeats_throw error
  | ok a => exact repeats_pure a

/-- Work that came to an end, started over. -/
theorem Repeats.comesTo (h : Repeats work again) (ended : ComesTo work a clean) :
    ComesTo again a clean := by
  obtain ⟨t, runs, -, same⟩ := ended start
  obtain ⟨clean', between, comes⟩ := h start a t runs
  rwa [← same, between.2]

theorem Repeats.bind {after after' : α → WalkM β} (h : Repeats work again)
    (rest : ∀ a, Repeats (after a) (after' a)) : Repeats (work >>= after) (again >>= after') := by
  intro s b u runs
  rcases first : work s with ⟨error | a, t⟩
  · rw [bind_of_error after first] at runs
    cases runs
  · rw [bind_of_ok after first] at runs
    obtain ⟨clean, between, comes⟩ := h s a t first
    obtain ⟨clean', between', comes'⟩ := rest a t b u runs
    exact ⟨_, between.trans between', comes.bind comes'⟩

theorem Repeats.within (h : Repeats work again) (step : PathStep) :
    Repeats (Walk.within step work) (Walk.within step again) := by
  intro s a u runs
  rcases first : work { s with trail := step :: s.trail } with ⟨result, t⟩
  obtain ⟨rfl, rfl⟩ := Prod.mk.inj ((within_apply first).symm.trans runs)
  obtain ⟨clean, between, comes⟩ := h _ a t first
  exact ⟨clean, between, comes.within step⟩

theorem Repeats.noting (h : Repeats work again) :
    Repeats (Walk.noting work) (Walk.noting again) := by
  intro s result u runs
  rcases first : work s with ⟨error | a, t⟩
  · rw [noting_apply_error first] at runs
    cases runs
  · obtain ⟨same, rfl⟩ := Prod.mk.inj ((noting_apply first).symm.trans runs)
    obtain rfl := Except.ok.inj same
    obtain ⟨clean, ⟨kept, rfl⟩, comes⟩ := h s a t first
    exact ⟨_, ⟨kept, rfl⟩, comes.noting⟩

theorem Repeats.attempt (h : Repeats work again) :
    Repeats (Walk.attempt work) (Walk.attempt again) := by
  intro s result u runs
  rcases first : work { s with issues := [] } with ⟨error | a, t⟩
  · rw [attempt_apply_error first] at runs
    cases runs
  · obtain ⟨same, rfl⟩ := Prod.mk.inj ((attempt_apply first).symm.trans runs)
    obtain ⟨clean, between, comes⟩ := h _ a t first
    refine ⟨true, ⟨Nat.le_refl _, by simp⟩, ?_⟩
    rw [← Except.ok.inj same, between.isEmpty_eq rfl]
    exact comes.attempt

/-! ### Work that fails -/

/-- Work that repeats itself comes to a value from every state or from none. -/
theorem Repeats.comesTo_or_fails (h : Repeats work work) :
    (∃ a clean, ComesTo work a clean) ∨ Fails work := by
  by_cases ended : ∃ s a t, work s = (.ok a, t)
  · obtain ⟨s, a, t, runs⟩ := ended
    obtain ⟨clean, -, comes⟩ := h s a t runs
    exact .inl ⟨a, clean, comes⟩
  · refine .inr fun s => ?_
    rcases runs : work s with ⟨error | a, t⟩
    · exact ⟨error, t, rfl⟩
    · exact absurd ⟨s, a, t, runs⟩ ended

theorem ComesTo.not_fails (h : ComesTo work a clean) : ¬ Fails work := by
  intro fails
  obtain ⟨t, runs, -⟩ := h start
  obtain ⟨error, t', fails⟩ := fails start
  cases runs.symm.trans fails

/-- A run of two steps is a run of each. -/
theorem ComesTo.of_bind {after : α → WalkM β} (h : ComesTo (work >>= after) b clean)
    (again : Repeats work work) (rest : ∀ a, Repeats (after a) (after a)) :
    ∃ a first second, ComesTo work a first ∧ ComesTo (after a) b second ∧
      clean = (first && second) := by
  obtain ⟨u, runs, -, whole⟩ := h start
  rcases ran : work start with ⟨error | a, t⟩
  · rw [bind_of_error after ran] at runs
    cases runs
  · rw [bind_of_ok after ran] at runs
    obtain ⟨first, between, comes⟩ := again start a t ran
    obtain ⟨second, between', comes'⟩ := rest a t b u runs
    exact ⟨a, first, second, comes, comes', whole.symm.trans (between.trans between').2⟩

theorem Fails.bind (h : Fails work) (after : α → WalkM β) : Fails (work >>= after) := by
  intro s
  obtain ⟨error, t, fails⟩ := h s
  exact ⟨error, t, bind_of_error after fails⟩

theorem Fails.within (h : Fails work) (step : PathStep) : Fails (Walk.within step work) := by
  intro s
  obtain ⟨error, t, fails⟩ := h { s with trail := step :: s.trail }
  exact ⟨error, _, within_apply fails⟩

theorem ComesTo.of_within {step : PathStep} (h : ComesTo (Walk.within step work) a clean)
    (again : Repeats work work) : ComesTo work a clean := by
  rcases again.comesTo_or_fails with ⟨a', clean', comes⟩ | fails
  · obtain ⟨rfl, rfl⟩ := h.unique (comes.within step)
    exact comes
  · exact absurd (fails.within step) h.not_fails

theorem Fails.noting (h : Fails work) : Fails (Walk.noting work) := by
  intro s
  obtain ⟨error, t, fails⟩ := h s
  exact ⟨error, t, noting_apply_error fails⟩

theorem Fails.attempt (h : Fails work) : Fails (Walk.attempt work) := by
  intro s
  obtain ⟨error, t, fails⟩ := h { s with issues := [] }
  exact ⟨error, _, attempt_apply_error fails⟩

/-! ### Constraints -/

/-- A bound that is complained about, and what comes after it. -/
theorem comesTo_bound {x : Option Binary64} {message : Binary64 → String} {rest : WalkM Unit}
    (h : ComesTo rest () clean) :
    ComesTo (do
      if let some bound := x then complain (message bound)
      rest) () (x.isNone && clean) := by
  cases x with
  | none => exact h
  | some bound => exact (comesTo_complain _).bind h

theorem comesTo_lastBound (x : Option Binary64) (message : Binary64 → String) :
    ComesTo (do
      if let some bound := x then complain (message bound)) () x.isNone := by
  cases x with
  | none => exact comesTo_pure ()
  | some bound => exact comesTo_complain _

/-- A bound that is not complained about is not broken. -/
private theorem isNone_filter_iff (x : Option Binary64) (breaks : Binary64 → Bool) :
    (x.filter breaks).isNone = true ↔ ∀ bound ∈ x, breaks bound = false := by
  rw [Option.isNone_iff_eq_none, Option.filter_eq_none_iff]
  simp

/-- Looking at the constraints of a layer always ends, and is clean if they admit the value. -/
theorem comesTo_constraints (c : Constraints) (data : Json) :
    ∃ clean, ComesTo (constraints c data) () clean ∧ (clean = true ↔ Admits c data) := by
  cases data with
  | number n =>
    refine ⟨_, comesTo_bound (comesTo_lastBound _ _), ?_⟩
    rw [Bool.and_eq_true, isNone_filter_iff, isNone_filter_iff, Admits]
  | string | array | object =>
    refine ⟨_, comesTo_bound (comesTo_lastBound _ _), ?_⟩
    rw [Bool.and_eq_true, isNone_filter_iff, isNone_filter_iff]
    exact ⟨fun holds count unit same => by cases same; exact holds, fun admits => admits _ _ rfl⟩
  | null | bool => exact ⟨true, comesTo_pure (), by simp [Admits, size?]⟩

theorem repeats_constraints (c : Constraints) (data : Json) :
    Repeats (constraints c data) (constraints c data) := by
  obtain ⟨clean, comes, -⟩ := comesTo_constraints c data
  exact repeats_of_comesTo comes

/-! ### Parts -/

theorem repeats_complain (message : String) : Repeats (complain message) (complain message) :=
  repeats_of_comesTo (comesTo_complain message)

theorem repeats_checked (broken : Bool) (message : String) (a : α) :
    Repeats (do
      if broken then complain message
      return a) (do
      if broken then complain message
      return a) :=
  repeats_of_comesTo (comesTo_checked broken message a)

theorem repeats_require (holds : Bool) (expected : String) (data : Json) :
    Repeats (require holds expected data) (require holds expected data) :=
  repeats_of_comesTo (comesTo_require holds expected data)

theorem repeats_items {check check' : Nat → Json → WalkM Json}
    (h : ∀ i value, Repeats (check i value) (check' i value)) (values : List Json) (i : Nat) :
    Repeats (items check i values) (items check' i values) := by
  induction values generalizing i with
  | nil => exact repeats_pure []
  | cons value rest ih =>
    refine ((h i value).within (.index i)).bind fun output => ?_
    exact (ih (i + 1)).bind fun outputs => repeats_pure (output :: outputs)

theorem repeats_members {check check' : Json → WalkM Json}
    (h : ∀ value, Repeats (check value) (check' value)) (values seen : List Json) (i : Nat) :
    Repeats (members check seen i values) (members check' seen i values) := by
  induction values generalizing seen i with
  | nil => exact repeats_pure []
  | cons value rest ih =>
    refine ((h value).within (.index i)).bind fun output => ?_
    have others := (ih (seen ++ [output]) (i + 1)).bind fun outputs =>
      repeats_pure (output :: outputs)
    cases repeated : Json.among seen output with
    | true => exact ((repeats_complain _).within (.index i)).bind fun _ => others
    | false => exact others

theorem repeats_entries {key key' value value' : Json → WalkM Json}
    (hk : ∀ data, Repeats (key data) (key' data))
    (hv : ∀ data, Repeats (value data) (value' data)) (fields : Json.Fields) :
    Repeats (entries key value fields) (entries key' value' fields) := by
  induction fields with
  | nil => exact repeats_pure []
  | cons first rest ih =>
    obtain ⟨name, data⟩ := first
    have inside := (hk (.string name)).bind fun _ => hv data
    refine (inside.within (.key name)).bind fun output => ?_
    exact ih.bind fun outputs => repeats_pure ((name, output) :: outputs)

section Checks

variable {check check' : Schema γ → Json → WalkM Json}
  (h : ∀ node data, Repeats (check node data) (check' node data))
include h

theorem repeats_properties (absence : Schema γ → Except VendorError Absence) (data : Json.Fields)
    (nodes : List (String × Schema γ)) (output : Json.Fields) :
    Repeats (properties check absence data nodes output)
      (properties check' absence data nodes output) := by
  induction nodes generalizing output with
  | nil => exact repeats_pure output
  | cons first rest ih =>
    obtain ⟨name, node⟩ := first
    rw [properties, properties]
    cases Table.get? data name with
    | some value => exact ((h node value).within (.key name)).bind fun part => ih _
    | none =>
      refine (repeats_lift (absence node)).bind fun a => ?_
      cases a with
      | skip => exact ih output
      | fill value => exact ih _
      | missing => exact ((repeats_complain "required").within (.key name)).bind fun _ => ih output

theorem repeats_firstOf (options : List (Schema γ)) (data : Json) :
    Repeats (firstOf (fun option => check option data) options)
      (firstOf (fun option => check' option data) options) := by
  induction options with
  | nil => exact repeats_pure none
  | cons option rest ih =>
    refine (h option data).attempt.bind fun result => ?_
    cases result with
    | some output => exact repeats_pure (some output)
    | none => exact ih

theorem repeats_tuple (nodes : List (Schema γ)) (rest : Option (Schema γ)) (data : Json)
    (values : List Json) :
    Repeats (tuple check nodes rest data values) (tuple check' nodes rest data values) := by
  unfold tuple
  split
  · exact (repeats_complain _).bind fun _ => repeats_pure data
  · split
    · exact (repeats_complain _).bind fun _ => repeats_pure data
    · refine (repeats_items (fun i value => ?_) values 0).bind fun outputs => repeats_pure _
      cases nodes[i]?.or rest with
      | some node => exact h node value
      | none => exact repeats_pure value

theorem repeats_intersection (parts : List (Schema γ)) (data : Json) :
    Repeats (parts.forM fun part => discard (check part data))
      (parts.forM fun part => discard (check' part data)) := by
  induction parts with
  | nil => exact repeats_pure ()
  | cons part rest ih =>
    have first : Repeats (discard (check part data)) (discard (check' part data)) :=
      (h part data).bind fun _ => repeats_pure ()
    exact first.bind fun _ => ih

/-! ### Kinds and nodes -/

omit h in
/-- Work on the items of the data, which is an issue for anything else than an array. -/
theorem repeats_array {data : Json} {work work' : List Json → WalkM Json}
    (h : ∀ values, Repeats (work values) (work' values)) :
    Repeats (match data.asArray? with
      | some values => work values
      | none => require false "array" data) (match data.asArray? with
      | some values => work' values
      | none => require false "array" data) := by
  cases data.asArray? with
  | some values => exact h values
  | none => exact repeats_require _ _ _

omit h in
/-- Work on the entries of the data, which is an issue for anything else than an object. -/
theorem repeats_object {data : Json} {work work' : Json.Fields → WalkM Json.Fields}
    (h : ∀ fields, Repeats (work fields) (work' fields)) :
    Repeats (match data.asObject? with
      | some fields => do return .object (← work fields)
      | none => require false "object" data) (match data.asObject? with
      | some fields => do return .object (← work' fields)
      | none => require false "object" data) := by
  cases data.asObject? with
  | some fields => exact (h fields).bind fun outputs => repeats_pure (Json.object outputs)
  | none => exact repeats_require _ _ _

theorem repeats_kind (scope : Scope γ) (kind : Kind γ (Schema γ)) (data : Json) :
    Repeats (Walk.kind scope check kind data) (Walk.kind scope check' kind data) := by
  cases kind with
  | string | date | number | boolean | null | bigint => exact repeats_require _ _ _
  | undefined | void => exact repeats_require false _ data
  | never => exact (repeats_complain _).bind fun _ => repeats_pure data
  | any | unknown | symbol | function => exact repeats_pure data
  | literal | enumeration => exact repeats_checked _ _ data
  | instanceOf className =>
    rw [Walk.kind, Walk.kind]
    split
    · exact repeats_require _ _ _
    · exact repeats_checked _ _ data
  | object entries =>
    exact repeats_object fun fields => repeats_properties h _ fields entries fields
  | array element =>
    exact repeats_array fun values => (repeats_items (fun _ => h element) values 0).bind
      fun outputs => repeats_pure (Json.array outputs)
  | set element =>
    exact repeats_array fun values => (repeats_members (h element) values [] 0).bind
      fun outputs => repeats_pure (Json.array outputs)
  | record key value | map key value =>
    exact repeats_object fun fields => repeats_entries (h key) (h value) fields
  | tuple nodes rest => exact repeats_array fun values => repeats_tuple h nodes rest data values
  | union options =>
    refine (repeats_firstOf h options data).bind fun result => ?_
    cases result with
    | some output => exact repeats_pure output
    | none => exact (repeats_complain _).bind fun _ => repeats_pure data
  | intersection parts => exact (repeats_intersection h parts data).bind fun _ => repeats_pure data
  | promise inner | optional inner | branded inner | defaulted inner => exact h inner data
  | nullable inner =>
    rw [Walk.kind, Walk.kind]
    split
    · exact repeats_pure Json.null
    · exact h inner data
  | caught inner fallback =>
    exact (h inner data).attempt.bind fun result => repeats_pure (result.getD fallback)
  | refined inner message holds =>
    exact (h inner data).noting.bind fun result => repeats_checked _ _ result.1
  | transformed inner apply =>
    exact (h inner data).noting.bind fun result => repeats_pure _
  | deferred target => exact (repeats_lift (targetOf scope target)).bind fun inner => h inner data

end Checks

/-- The validator comes to the same from any state, with as much room for nested layers or more. -/
theorem repeats_node (scope : Scope γ) (room more : Nat) (schema : Schema γ) (data : Json) :
    Repeats (Walk.node scope room schema data) (Walk.node scope (room + more) schema data) := by
  induction room generalizing schema data with
  | zero => exact repeats_throw tooDeep
  | succ room ih =>
    rw [Nat.succ_add, Walk.node, Walk.node]
    cases schema.payload.fluent? with
    | none => exact (repeats_of_comesTo (comesTo_note _)).bind fun _ => repeats_pure data
    | some layer =>
      refine (repeats_kind ih scope layer.kind data).noting.bind fun result => ?_
      obtain ⟨output, clean⟩ := result
      cases clean with
      | true => exact (repeats_constraints _ data).bind fun _ => repeats_pure output
      | false => exact repeats_pure output

/-- What a node comes to, it comes to with more room as well. -/
theorem ComesTo.of_le {scope : Scope γ} {room room' : Nat} {schema : Schema γ} {data output : Json}
    (h : ComesTo (Walk.node scope room schema data) output clean) (le : room ≤ room') :
    ComesTo (Walk.node scope room' schema data) output clean := by
  obtain ⟨more, rfl⟩ := Nat.exists_eq_add_of_le le
  exact (repeats_node scope room more schema data).comesTo h

/-- A node comes to what its kind comes to, and is clean if the kind is and the constraints of the
layer admit the data. -/
theorem comesTo_node {scope : Scope γ} {room : Nat} {schema : Schema γ} {layer : Layer γ}
    {data output : Json} (seen : schema.payload.fluent? = some layer)
    (h : ComesTo (Walk.kind scope (Walk.node scope room) layer.kind data) output clean) :
    ∃ clean', ComesTo (Walk.node scope (room + 1) schema data) output clean' ∧
      (clean' = true ↔ clean = true ∧ Admits layer.details.constraints data) := by
  rw [Walk.node, seen]
  cases clean with
  | false => exact ⟨_, h.noting.bind (comesTo_pure output), by simp⟩
  | true =>
    obtain ⟨admitted, comes, admits⟩ := comesTo_constraints layer.details.constraints data
    exact ⟨_, h.noting.bind (comes.bind (comesTo_pure output)), by simpa using admits⟩

/-- A node that comes to something has a kind that comes to it. -/
theorem ComesTo.of_node {scope : Scope γ} {room : Nat} {schema : Schema γ} {layer : Layer γ}
    {data output : Json} (seen : schema.payload.fluent? = some layer)
    (h : ComesTo (Walk.node scope (room + 1) schema data) output clean) :
    ∃ clean', ComesTo (Walk.kind scope (Walk.node scope room) layer.kind data) output clean' ∧
      (clean = true ↔ clean' = true ∧ Admits layer.details.constraints data) := by
  rcases (repeats_kind (repeats_node scope room 0) scope layer.kind data).comesTo_or_fails with
    ⟨output', clean', comes⟩ | fails
  · obtain ⟨whole, comes', isClean⟩ := comesTo_node seen comes
    obtain ⟨rfl, rfl⟩ := h.unique comes'
    exact ⟨clean', comes, isClean⟩
  · rw [Walk.node, seen] at h
    exact absurd (fails.noting.bind _) h.not_fails

end Walk

/-- A layer without constraints admits everything. -/
theorem admits_empty (data : Json) : Admits .empty data := by
  cases data <;> simp [Admits, Constraints.empty]

/-! ### The whole validator -/

variable {γ : Type} {scope : Scope γ} {node : Schema γ} {data output : Json} {clean : Bool}

/-- The outcome of the validator, by what the node comes to. -/
theorem parsed_iff_of_comesTo
    (h : Walk.ComesTo (Walk.node scope (Walk.nestingLimit + 1) node data) output clean)
    (result : Json) :
    (validate scope node data).value = .ok (.parsed result) ↔ clean = true ∧ result = output := by
  obtain ⟨t, runs, between⟩ := h Walk.start
  rw [value_validate runs, ← between.isEmpty_eq rfl]
  cases t.issues with
  | nil => exact ⟨fun same => by cases same; exact ⟨rfl, rfl⟩, fun same => by rw [same.2]; rfl⟩
  | cons => exact ⟨nofun, fun same => by cases same.1⟩

/-- Validation that ends comes to the same from any state. -/
theorem comesTo_of_validate {outcome : VendorOutcome}
    (ended : (validate scope node data).value = .ok outcome) :
    ∃ output clean,
      Walk.ComesTo (Walk.node scope (Walk.nestingLimit + 1) node data) output clean := by
  rcases (Walk.repeats_node scope (Walk.nestingLimit + 1) 0 node data).comesTo_or_fails with
    comes | fails
  · exact comes
  · obtain ⟨error, t, runs⟩ := fails Walk.start
    rw [value_validate runs] at ended
    cases ended

end SchemaBridge.Fluent
