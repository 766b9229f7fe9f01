import SchemaBridge.Compile.Ledger
import SchemaBridge.Fluent.Validation

/-!
# Work of the validator that reports nothing

The validator reports issues and goes on, so that what its work comes to says little as long as
there are issues. Work *grants* something if it holds of the value whenever no issue was reported on
the way. Since no issue is ever taken back, work that is put together from parts reports nothing
only if no part does; so what composite work grants follows from what its parts grant.

## Main definitions

* `Fluent.Walk.Grants` : what holds of the value of work that reports nothing.

## Main results

* `Fluent.Walk.Grants.bind` : work in sequence.
* `Fluent.Walk.Grants.attempt`, `Fluent.Walk.Grants.noting` : work whose issues are looked at.
-/

namespace SchemaBridge.Fluent.Walk

open Stateful

variable {γ α β : Type}

/-- Work never takes an issue back, and if it comes to a value without reporting one, the value is
as stated. -/
def Grants (work : WalkM α) (P : α → Prop) : Prop :=
  ∀ s a t, work s = (.ok a, t) →
    s.issues.length ≤ t.issues.length ∧ (t.issues.length = s.issues.length → P a)

variable {work : WalkM α} {P Q : α → Prop}

/-! ### Steps -/

theorem grants_pure {a : α} (h : P a) : Grants (pure a) P := by
  rintro s _ _ ⟨⟩
  exact ⟨Nat.le_refl _, fun _ => h⟩

theorem grants_throw (error : VendorError) : Grants (throw error : WalkM α) P := by
  rintro s a t ⟨⟩

/-- An issue grants anything. -/
theorem grants_complain (message : String) {P : Unit → Prop} : Grants (complain message) P := by
  rintro s _ _ ⟨⟩
  refine ⟨Nat.le_succ _, fun same => ?_⟩
  simp at same

theorem grants_note (event : Event) : Grants (note event) fun _ => True := by
  rintro s _ _ ⟨⟩
  exact ⟨Nat.le_refl _, fun _ => trivial⟩

theorem grants_lift {x : Except VendorError α} (h : ∀ a, x = .ok a → P a) :
    Grants (liftM x) P := by
  cases x with
  | error error => exact grants_throw error
  | ok a => exact grants_pure (h a rfl)

/-! ### Composite work -/

theorem Grants.mono (h : Grants work P) (weaker : ∀ a, P a → Q a) : Grants work Q :=
  fun s a t runs => (h s a t runs).imp_right fun granted same => weaker a (granted same)

theorem Grants.bind {after : α → WalkM β} {R : β → Prop} (h : Grants work P)
    (rest : ∀ a, Grants (after a) fun b => P a → R b) : Grants (work >>= after) R := by
  intro s b u runs
  rcases first : work s with ⟨error | a, t⟩
  · rw [bind_of_error after first] at runs
    cases runs
  · rw [bind_of_ok after first] at runs
    obtain ⟨before, granted⟩ := h s a t first
    obtain ⟨later, granted'⟩ := rest a t b u runs
    refine ⟨Nat.le_trans before later, fun same => ?_⟩
    exact granted' (by omega) (granted (by omega))

/-- A value after an issue that is reported in some case. -/
theorem grants_checked {broken : Bool} {message : String} {a : α} (h : broken = false → P a) :
    Grants (do
      if broken then complain message
      return a) P := by
  cases broken with
  | false => exact grants_pure (h rfl)
  | true => exact (grants_complain message).bind fun _ => grants_pure fun sound => h sound

theorem grants_require {holds : Bool} {expected : String} {data : Json} {P : Json → Prop}
    (h : holds = true → P data) : Grants (require holds expected data) P :=
  grants_checked fun sound => h (by simpa using sound)

theorem grants_refuse {expected : String} {data : Json} {P : Json → Prop} :
    Grants (require false expected data) P :=
  grants_require fun impossible => absurd impossible Bool.false_ne_true

theorem Grants.within (h : Grants work P) (step : PathStep) : Grants (Walk.within step work) P := by
  intro s a u runs
  rcases first : work { s with trail := step :: s.trail } with ⟨r, t⟩
  have result : Walk.within step work s = (r, { t with trail := t.trail.tail }) := by
    change ((work { s with trail := step :: s.trail }).1, _) = _
    rw [first]
  rw [result] at runs
  obtain ⟨rfl, rfl⟩ := Prod.mk.inj runs
  exact h { s with trail := step :: s.trail } a t first

/-- Work that is watched is found to have reported nothing if nothing is reported. -/
theorem Grants.noting (h : Grants work P) :
    Grants (Walk.noting work) fun result => result.2 = true ∧ P result.1 := by
  intro s a u runs
  have watched : Walk.noting work s = (work >>= fun b => get >>= fun t =>
      pure (b, decide (t.issues.length = s.issues.length))) s := rfl
  rcases first : work s with ⟨error | b, t⟩
  · rw [watched, bind_of_error _ first] at runs
    cases runs
  · rw [watched, bind_of_ok _ first] at runs
    obtain ⟨same, rfl⟩ := Prod.mk.inj runs
    obtain rfl := Except.ok.inj same
    exact (h s b t first).imp_right fun granted same => ⟨by simpa using same, granted same⟩

/-- Work whose issues are dropped comes to a value only if there were none. -/
theorem Grants.attempt (h : Grants work P) :
    Grants (Walk.attempt work) fun result => ∀ a, result = some a → P a := by
  intro s a u runs
  rcases first : work { s with issues := [] } with ⟨error | b, t⟩
  · have result : Walk.attempt work s = (.error error, { s with events := t.events }) := by
      change (((work { s with issues := [] }).1).map _, _) = _
      rw [first]
      rfl
    rw [result] at runs
    cases runs
  · have result : Walk.attempt work s =
        (.ok (if t.issues.isEmpty then some b else none), { s with events := t.events }) := by
      change (((work { s with issues := [] }).1).map _, _) = _
      rw [first]
      rfl
    rw [result] at runs
    obtain ⟨same, rfl⟩ := Prod.mk.inj runs
    obtain rfl := Except.ok.inj same
    refine ⟨Nat.le_refl _, fun _ c given => ?_⟩
    split at given
    · rename_i none
      obtain rfl := Option.some.inj given
      exact (h _ b t first).2 (by simpa using none)
    · cases given

end SchemaBridge.Fluent.Walk
