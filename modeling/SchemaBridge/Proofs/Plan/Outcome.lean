import Mathlib.Data.List.Forall2
import Mathlib.Data.Option.Basic
import SchemaBridge.Compile.Structure

/-!
# What comes of a plan

A plan that is carried out either comes to a value or fails at a question. What it comes to is
described apart from the books: by the answers that its adapter can give, and by a relation between
the parts and the schemas that they compile to. One statement then ties a run on the books to this
description, for every property of books that questions and parts keep.

## Main definitions

* `Plan.Yields`, `Plan.Raises` : the values and the errors of a plan.
* `Plan.Visits` : the parts that a run compiles, each with the books at that moment.

## Main results

* `Plan.yields_bind`, `Plan.yields_parts`, `Plan.yields_entries` : the values of composite plans.
* `Structure.carryOut_spec` : what a run on the books keeps and comes to.
-/

namespace SchemaBridge

variable {π α β : Type}

/-- A question may be answered with a value. -/
def Answer.Gives (answer : Answer β) (value : β) : Prop := ∃ supply, (answer supply).1 = .ok value

/-- A question may be answered with an error. -/
def Answer.Fails (answer : Answer β) (error : VendorError) : Prop :=
  ∃ supply, (answer supply).1 = .error error

namespace Ledger

theorem ask_of_ok {answer : Answer β} {s : Ledger} {given : β} {supply : Nat}
    (h : answer s.supply = (.ok given, supply)) :
    ask answer s = (.ok given, { s with supply }) := by
  change ((answer s.supply).1.mapError _, _) = _
  rw [h]
  rfl

theorem ask_of_error {answer : Answer β} {s : Ledger} {error : VendorError} {supply : Nat}
    (h : answer s.supply = (.error error, supply)) :
    ask answer s = (.error (.raised error), { s with supply }) := by
  change ((answer s.supply).1.mapError _, _) = _
  rw [h]
  rfl

end Ledger

/-! ### Lists whose members are related one by one -/

section

variable {related : α → β → Prop} {as : List α} {bs : List β}

theorem exists_right_of_forall₂ (h : List.Forall₂ related as bs) {a : α} (mem : a ∈ as) :
    ∃ b ∈ bs, related a b := by
  induction h with
  | nil => cases mem
  | cons first _ ih =>
    rcases List.mem_cons.1 mem with rfl | mem
    · exact ⟨_, List.mem_cons_self, first⟩
    · obtain ⟨b, mem, rel⟩ := ih mem
      exact ⟨b, List.mem_cons_of_mem _ mem, rel⟩

theorem exists_left_of_forall₂ (h : List.Forall₂ related as bs) {b : β} (mem : b ∈ bs) :
    ∃ a ∈ as, related a b :=
  exists_right_of_forall₂ h.flip mem

theorem rel_getElem?_of_forall₂ (h : List.Forall₂ related as bs) (i : Nat) :
    Option.Rel related as[i]? bs[i]? := by
  induction h generalizing i with
  | nil => exact .none
  | cons first _ ih =>
    cases i with
    | zero => exact .some first
    | succ i => exact ih i

/-- Lists that are related are so at every position, also where one more is meant for the positions
after them. -/
theorem rel_getElem?_or_of_forall₂ (h : List.Forall₂ related as bs) {a : Option α} {b : Option β}
    (others : Option.Rel related a b) (i : Nat) :
    Option.Rel related (as[i]?.or a) (bs[i]?.or b) := by
  have atPosition := rel_getElem?_of_forall₂ h i
  generalize as[i]? = x, bs[i]? = y at atPosition
  cases atPosition with
  | none => exact others
  | some first => exact .some first

end

namespace Plan

/-! ### Values and errors -/

/-- A plan comes to a value, if parts may compile to schemas as `compiles` says. -/
inductive Yields (compiles : Node π → NodeSchema → Prop) : Plan π α → α → Prop where
  | done (value : α) : Yields compiles (.done value) value
  | ask {γ : Type} {answer : Answer γ} {next : γ → Plan π α} {given : γ} {value : α}
      (gives : Answer.Gives answer given) (rest : Yields compiles (next given) value) :
      Yields compiles (.ask answer next) value
  | compile {part : Node π} {next : NodeSchema → Plan π α} {c : NodeSchema} {value : α}
      (compiled : compiles part c) (rest : Yields compiles (next c) value) :
      Yields compiles (.compile part next) value

/-- A plan fails with an error, if parts may compile to schemas as `compiles` says. -/
inductive Raises (compiles : Node π → NodeSchema → Prop) : Plan π α → VendorError → Prop where
  | here {γ : Type} {answer : Answer γ} {next : γ → Plan π α} {error : VendorError}
      (fails : Answer.Fails answer error) : Raises compiles (.ask answer next) error
  | ask {γ : Type} {answer : Answer γ} {next : γ → Plan π α} {given : γ} {error : VendorError}
      (gives : Answer.Gives answer given) (rest : Raises compiles (next given) error) :
      Raises compiles (.ask answer next) error
  | compile {part : Node π} {next : NodeSchema → Plan π α} {c : NodeSchema} {error : VendorError}
      (compiled : compiles part c) (rest : Raises compiles (next c) error) :
      Raises compiles (.compile part next) error

variable {compiles more : Node π → NodeSchema → Prop}

theorem Yields.mono (weaker : ∀ node c, compiles node c → more node c) {plan : Plan π α} {value : α}
    (h : Yields compiles plan value) : Yields more plan value := by
  induction h with
  | done => exact .done _
  | ask gives _ ih => exact .ask gives ih
  | compile compiled _ ih => exact .compile (weaker _ _ compiled) ih

@[simp] theorem yields_pure (a value : α) :
    Yields compiles (pure a : Plan π α) value ↔ value = a := by
  constructor
  · intro h
    cases h
    rfl
  · rintro rfl
    exact .done value

@[simp] theorem yields_bind (plan : Plan π α) (after : α → Plan π β) (value : β) :
    Yields compiles (plan >>= after) value ↔
      ∃ a, Yields compiles plan a ∧ Yields compiles (after a) value := by
  change Yields compiles (plan.andThen after) value ↔ _
  induction plan with
  | done a =>
    refine ⟨fun h => ⟨a, .done a, h⟩, fun ⟨b, hb, h⟩ => ?_⟩
    cases hb
    exact h
  | ask answer next ih =>
    constructor
    · intro h
      obtain _ | ⟨gives, rest⟩ := h
      obtain ⟨a, first, last⟩ := (ih _).1 rest
      exact ⟨a, .ask gives first, last⟩
    · rintro ⟨a, first, last⟩
      obtain _ | ⟨gives, rest⟩ := first
      exact .ask gives ((ih _).2 ⟨a, rest, last⟩)
  | compile part next ih =>
    constructor
    · intro h
      obtain _ | _ | ⟨compiled, rest⟩ := h
      obtain ⟨a, first, last⟩ := (ih _).1 rest
      exact ⟨a, .compile compiled first, last⟩
    · rintro ⟨a, first, last⟩
      obtain _ | _ | ⟨compiled, rest⟩ := first
      exact .compile compiled ((ih _).2 ⟨a, rest, last⟩)

@[simp] theorem yields_question (answer : Answer β) (value : β) :
    Yields compiles (question answer : Plan π β) value ↔ Answer.Gives answer value := by
  constructor
  · intro h
    obtain _ | ⟨gives, rest⟩ := h
    cases rest
    exact gives
  · exact fun gives => .ask gives (.done value)

@[simp] theorem yields_part (node : Node π) (c : NodeSchema) :
    Yields compiles (part node) c ↔ compiles node c := by
  constructor
  · intro h
    obtain _ | _ | ⟨compiled, rest⟩ := h
    cases rest
    exact compiled
  · exact fun compiled => .compile compiled (.done c)

@[simp] theorem yields_part? (node : Option (Node π)) (c : Option NodeSchema) :
    Yields compiles (part? node) c ↔ Option.Rel compiles node c := by
  cases node with
  | none => cases c <;> simp [part?]
  | some node => cases c <;> simp [part?]

@[simp] theorem yields_parts (nodes : List (Node π)) (cs : List NodeSchema) :
    Yields compiles (parts nodes) cs ↔ List.Forall₂ compiles nodes cs := by
  induction nodes generalizing cs with
  | nil => cases cs <;> simp [parts]
  | cons node rest ih => cases cs <;> simp [parts, ih]

@[simp] theorem yields_entries (nodes : List (String × Node π)) (cs : List (String × NodeSchema)) :
    Yields compiles (entries nodes) cs ↔
      List.Forall₂ (fun a b => a.1 = b.1 ∧ compiles a.2 b.2) nodes cs := by
  induction nodes generalizing cs with
  | nil => cases cs <;> simp [entries]
  | cons node rest ih =>
    cases cs with
    | nil => simp [entries]
    | cons c cs =>
      obtain ⟨key, c⟩ := c
      simp only [entries, yields_bind, yields_part, ih, yields_pure, List.cons.injEq, Prod.mk.injEq,
        List.forall₂_cons]
      constructor
      · rintro ⟨d, compiled, ds, rest, ⟨rfl, rfl⟩, rfl⟩
        exact ⟨⟨rfl, compiled⟩, rest⟩
      · rintro ⟨⟨rfl, compiled⟩, rest⟩
        exact ⟨c, compiled, cs, rest, ⟨rfl, rfl⟩, rfl⟩

/-- What holds of all answers holds of those in a list of parts. -/
theorem forall_of_forall₂ {γ δ : Type} {R : γ → δ → Prop} {P : δ → Prop}
    (all : ∀ a b, R a b → P b) {as : List γ} {bs : List δ} (h : List.Forall₂ R as bs) :
    ∀ b ∈ bs, P b := by
  induction h with
  | nil => simp
  | cons first _ ih => exact List.forall_mem_cons.2 ⟨all _ _ first, ih⟩

/-- What holds of all answers holds of that of a part, if there is one. -/
theorem forall_of_rel {γ δ : Type} {R : γ → δ → Prop} {P : δ → Prop} (all : ∀ a b, R a b → P b)
    {a : Option γ} {b : Option δ} (h : Option.Rel R a b) : ∀ b' ∈ b, P b' := by
  cases h with
  | none => simp
  | some related => simpa using all _ _ related

/-! ### Runs on the books -/

/-- The run of a plan from some books compiles a part when the books are `at`. -/
inductive Visits (child : Node π → CompileM NodeSchema) :
    Plan π α → Ledger → Node π → Ledger → Prop where
  | here {part : Node π} {next : NodeSchema → Plan π α} {s : Ledger} :
      Visits child (.compile part next) s part s
  | later {part other : Node π} {next : NodeSchema → Plan π α} {s t : Ledger}
      (rest : Visits child (next (child part s).1) (child part s).2 other t) :
      Visits child (.compile part next) s other t
  | ask {γ : Type} {answer : Answer γ} {next : γ → Plan π α} {given : γ} {supply : Nat}
      {other : Node π}
      {s t : Ledger} (gives : answer s.supply = (.ok given, supply))
      (rest : Visits child (next given) { s with supply } other t) :
      Visits child (.ask answer next) s other t

end Plan

namespace Structure

open Plan

variable (child : Node π → CompileM NodeSchema)

theorem carryOut_compile (part : Node π) (next : NodeSchema → Plan π α) (s : Ledger) :
    carryOut child (.compile part next) s =
      carryOut child (next (child part s).1) (child part s).2 := rfl

theorem carryOut_ask_of_ok {answer : Answer β} (next : β → Plan π α) {s : Ledger} {given : β}
    {supply : Nat} (h : answer s.supply = (.ok given, supply)) :
    carryOut child (.ask answer next) s = carryOut child (next given) { s with supply } :=
  Stateful.bind_of_ok _ (Ledger.ask_of_ok h)

theorem carryOut_ask_of_error {answer : Answer β} (next : β → Plan π α) {s : Ledger}
    {error : VendorError} {supply : Nat} (h : answer s.supply = (.error error, supply)) :
    carryOut child (.ask answer next) s = (.error (.raised error), { s with supply }) :=
  Stateful.bind_of_error _ (Ledger.ask_of_error h)

variable {child}

/-- A plan that goes on after another one. -/
theorem carryOut_bind_of_ok {plan : Plan π α} {a : α} {s t : Ledger} (after : α → Plan π β)
    (h : carryOut child plan s = (.ok a, t)) :
    carryOut child (plan >>= after) s = carryOut child (after a) t := by
  change carryOut child (plan.andThen after) s = _
  induction plan generalizing s with
  | done value =>
    obtain ⟨same, rfl⟩ := Prod.mk.inj h
    obtain rfl := Except.ok.inj same
    rfl
  | ask answer next ih =>
    rcases given : answer s.supply with ⟨error | value, supply⟩
    · rw [carryOut_ask_of_error child next given] at h
      cases h
    · rw [carryOut_ask_of_ok child next given] at h
      exact (carryOut_ask_of_ok child _ given).trans (ih value h)
  | compile part next ih => exact ih _ h

/-- What the run of a plan keeps and comes to. The books stay in `inv` and move on along `later`,
if every question and every part that the run compiles does so; what is known of a compiled part is
never lost. -/
theorem carryOut_spec {inv : Ledger → Prop} {later : Ledger → Ledger → Prop}
    {compiled : Node π → NodeSchema → Ledger → Prop}
    (refl : ∀ s, later s s) (trans : ∀ s t u, inv t → later s t → later t u → later s u)
    (asked : ∀ s supply, inv s → inv { s with supply } ∧ later s { s with supply })
    (lasts : ∀ node c s t, later s t → compiled node c s → compiled node c t)
    (plan : Plan π α) {s : Ledger}
    (part : ∀ node t, Visits child plan s node t → inv t →
      inv (child node t).2 ∧ later t (child node t).2 ∧
        compiled node (child node t).1 (child node t).2)
    (h : inv s) :
    inv (carryOut child plan s).2 ∧ later s (carryOut child plan s).2 ∧
      ((∃ value, (carryOut child plan s).1 = .ok value ∧
          Yields (fun node c => compiled node c (carryOut child plan s).2) plan value) ∨
        ∃ error, (carryOut child plan s).1 = .error (.raised error) ∧
          Raises (fun node c => compiled node c (carryOut child plan s).2) plan error) := by
  induction plan generalizing s with
  | done value => exact ⟨h, refl s, .inl ⟨value, rfl, .done value⟩⟩
  | ask answer next ih =>
    rcases given : answer s.supply with ⟨value | value, supply⟩
    · rw [carryOut_ask_of_error child next given]
      obtain ⟨inv', later'⟩ := asked s supply h
      exact ⟨inv', later', .inr ⟨value, rfl, .here ⟨s.supply, by rw [given]⟩⟩⟩
    · rw [carryOut_ask_of_ok child next given]
      obtain ⟨inv', later'⟩ := asked s supply h
      obtain ⟨inv'', later'', result⟩ :=
        ih value (fun node t visits => part node t (.ask given visits)) inv'
      have gives : Answer.Gives answer value := ⟨s.supply, by rw [given]⟩
      refine ⟨inv'', trans _ _ _ inv' later' later'', result.imp ?_ ?_⟩
      · exact fun ⟨a, eq, yields⟩ => ⟨a, eq, .ask gives yields⟩
      · exact fun ⟨e, eq, raises⟩ => ⟨e, eq, .ask gives raises⟩
  | compile node next ih =>
    rw [carryOut_compile]
    obtain ⟨inv', later', compiled'⟩ := part node s .here h
    obtain ⟨inv'', later'', result⟩ :=
      ih _ (fun node t visits => part node t (.later visits)) inv'
    have lasting := lasts _ _ _ _ later'' compiled'
    refine ⟨inv'', trans _ _ _ inv' later' later'', result.imp ?_ ?_⟩
    · exact fun ⟨a, eq, yields⟩ => ⟨a, eq, .compile lasting yields⟩
    · exact fun ⟨e, eq, raises⟩ => ⟨e, eq, .compile lasting raises⟩

/-- When a run compiles a part, the books have moved on from its start, and they move on from that
part to its end. -/
theorem later_of_visits {inv : Ledger → Prop} {later : Ledger → Ledger → Prop}
    (refl : ∀ s, later s s) (trans : ∀ s t u, inv t → later s t → later t u → later s u)
    (asked : ∀ s supply, inv s → inv { s with supply } ∧ later s { s with supply })
    {plan : Plan π α} {s t : Ledger} {node : Node π}
    (part : ∀ node t, Visits child plan s node t → inv t →
      inv (child node t).2 ∧ later t (child node t).2)
    (h : inv s) (visits : Visits child plan s node t) :
    inv t ∧ later s t ∧ later (child node t).2 (carryOut child plan s).2 := by
  have rest (plan : Plan π α) {s : Ledger} (part : ∀ node t, Visits child plan s node t → inv t →
      inv (child node t).2 ∧ later t (child node t).2) (h : inv s) :
      later s (carryOut child plan s).2 :=
    (@carryOut_spec π α child inv later (fun _ _ _ => True) refl trans asked
      (fun _ _ _ _ _ _ => trivial) plan s
      (fun node t visits h => ⟨(part node t visits h).1, (part node t visits h).2, trivial⟩) h).2.1
  induction visits with
  | here =>
    exact ⟨h, refl _,
      rest _ (fun node t visits => part node t (.later visits)) (part _ _ .here h).1⟩
  | later _ ih =>
    obtain ⟨inv', later'⟩ := part _ _ .here h
    obtain ⟨atPart, before, after⟩ := ih (fun node t visits => part node t (.later visits)) inv'
    exact ⟨atPart, trans _ _ _ inv' later' before, after⟩
  | ask gives _ ih =>
    obtain ⟨inv', later'⟩ := asked _ _ h
    obtain ⟨atPart, before, after⟩ :=
      ih (fun node t visits => part node t (.ask gives visits)) inv'
    rw [carryOut_ask_of_ok child _ gives]
    exact ⟨atPart, trans _ _ _ inv' later' before, after⟩

end Structure

end SchemaBridge
