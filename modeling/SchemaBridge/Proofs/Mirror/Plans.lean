import Mathlib.Data.List.Forall2
import Mathlib.Order.Basic
import SchemaBridge.Compile.Structure

/-!
# Plans that go the same way

Nodes are paired with partners, of the same vendor or of another one. Adapters may see the same in
partners, and answer every question about them with partners again; then the plans for the
structures of partners go the same way, whichever nodes they are. What is paired may depend on what
has been answered before, since an answer may build nodes that were not there. So it is said for a
stage, and later stages pair more.

## Main definitions

* `Pairing` : which nodes are partners at which stage.
* `Concur`, `Answer.Mirrors`, `Plan.Mirrors` : results, answers and plans that go the same way.
* `Adapter.Mirrors` : adapters that answer partners in the same way.

## Main results

* `Structure.ofShape_mirrors` : the structures of partners are put together in the same way.
* `Assembly.addLayer_mirrors` : the layers of partners contribute the same.
-/

namespace SchemaBridge

variable {σ π π' : Type} [Preorder σ] {α α' β β' : Type}

/-- A pairing of nodes, as far as it is known at a stage. -/
structure Pairing (σ : Type) [Preorder σ] (π π' : Type) where
  /-- The nodes are partners. -/
  nodes : σ → Node π → Node π' → Prop
  /-- The supplies of identities that the two sides may have. -/
  supplies : σ → Nat → Nat → Prop
  /-- Partners stay partners. -/
  nodes_mono : ∀ {stage later : σ}, stage ≤ later → ∀ {n : Node π} {n' : Node π'},
    nodes stage n n' → nodes later n n'

theorem Pairing.nodes_mono_option {W : Pairing σ π π'} {stage later : σ} (le : stage ≤ later)
    {m : Option (Node π)} {m' : Option (Node π')} (h : Option.Rel (W.nodes stage) m m') :
    Option.Rel (W.nodes later) m m' := by
  cases h with
  | none => exact .none
  | some h => exact .some (W.nodes_mono le h)

/-- Two attempts both fail, or both come to values that are related. -/
inductive Concur {ε ε' : Type} (related : α → α' → Prop) : Except ε α → Except ε' α' → Prop where
  | failed (e : ε) (e' : ε') : Concur related (.error e) (.error e')
  | given {a : α} {a' : α'} (h : related a a') : Concur related (.ok a) (.ok a')

theorem Concur.imp {ε ε' : Type} {related weaker : α → α' → Prop} {x : Except ε α}
    {x' : Except ε' α'} (h : Concur related x x') (weaken : ∀ a a', related a a' → weaker a a') :
    Concur weaker x x' := by
  cases h with
  | failed e e' => exact .failed e e'
  | given h => exact .given (weaken _ _ h)

theorem Concur.mapError {ε ε' δ δ' : Type} {related : α → α' → Prop} {x : Except ε α}
    {x' : Except ε' α'} (h : Concur related x x') (f : ε → δ) (f' : ε' → δ') :
    Concur related (x.mapError f) (x'.mapError f') := by
  cases h with
  | failed e e' => exact .failed _ _
  | given h => exact .given h

/-- Two questions are answered in the same way whenever they are put, from a stage on: both fail, or
the answers are related at a later stage, and so are the supplies that are left. -/
def Answer.Mirrors (W : Pairing σ π π') (stage : σ) (related : σ → α → α' → Prop)
    (answer : Answer α) (answer' : Answer α') : Prop :=
  ∀ now, stage ≤ now → ∀ supply supply', W.supplies now supply supply' → ∃ later, now ≤ later ∧
    Concur (related later) (answer supply).1 (answer' supply').1 ∧
    W.supplies later (answer supply).2 (answer' supply').2

theorem Answer.Mirrors.mono {W : Pairing σ π π'} {stage later : σ}
    {related : σ → α → α' → Prop} {answer : Answer α} {answer' : Answer α'}
    (h : Mirrors W stage related answer answer') (le : stage ≤ later) :
    Mirrors W later related answer answer' :=
  fun now from_later => h now (le.trans from_later)

theorem Answer.pure_mirrors {W : Pairing σ π π'} {stage : σ} {related : σ → α → α' → Prop}
    {a : α} {a' : α'} (h : ∀ later, stage ≤ later → related later a a') :
    Mirrors W stage related (pure a) (pure a') :=
  fun now le _ _ supplies => ⟨now, le_rfl, .given (h now le), supplies⟩

/-! ### Plans -/

namespace Plan

/-- Two plans go the same way from a stage on: they put questions that are answered in the same way,
compile partners, and come to related values. -/
inductive Mirrors (W : Pairing σ π π') :
    {α α' : Type} → σ → (σ → α → α' → Prop) → Plan π α → Plan π' α' → Prop where
  | done {α α' : Type} {stage : σ} {related : σ → α → α' → Prop} {a : α} {a' : α'}
      (h : related stage a a') : Mirrors W stage related (.done a) (.done a')
  | ask {α α' γ γ' : Type} {stage : σ} {related : σ → α → α' → Prop} {given : σ → γ → γ' → Prop}
      {answer : Answer γ} {answer' : Answer γ'} {next : γ → Plan π α} {next' : γ' → Plan π' α'}
      (answers : Answer.Mirrors W stage given answer answer')
      (rest : ∀ later, stage ≤ later → ∀ a a', given later a a' →
        Mirrors W later related (next a) (next' a')) :
      Mirrors W stage related (.ask answer next) (.ask answer' next')
  | compile {α α' : Type} {stage : σ} {related : σ → α → α' → Prop} {part : Node π}
      {part' : Node π'} {next : NodeSchema → Plan π α} {next' : NodeSchema → Plan π' α'}
      (parts : W.nodes stage part part')
      (rest : ∀ later, stage ≤ later → ∀ c, Mirrors W later related (next c) (next' c)) :
      Mirrors W stage related (.compile part next) (.compile part' next')

variable {W : Pairing σ π π'} {stage later : σ}

theorem Mirrors.bind {first : σ → α → α' → Prop} {second : σ → β → β' → Prop} {plan : Plan π α}
    {plan' : Plan π' α'} {after : α → Plan π β} {after' : α' → Plan π' β'}
    (h : Mirrors W stage first plan plan') (rest : ∀ later, stage ≤ later → ∀ a a',
      first later a a' → Mirrors W later second (after a) (after' a')) :
    Mirrors W stage second (plan >>= after) (plan' >>= after') := by
  change Mirrors W stage second (plan.andThen after) (plan'.andThen after')
  induction h with
  | done h => exact rest _ le_rfl _ _ h
  | ask answers _ ih =>
    exact .ask answers fun later le a a' given =>
      ih later le a a' given fun last le' => rest last (le.trans le')
  | compile parts _ ih =>
    exact .compile parts fun later le c => ih later le c fun last le' => rest last (le.trans le')

theorem question_mirrors {related : σ → α → α' → Prop} {answer : Answer α} {answer' : Answer α'}
    (h : Answer.Mirrors W stage related answer answer') :
    Mirrors W stage related (question answer) (question answer') :=
  .ask h fun _ _ _ _ => .done

theorem part_mirrors {n : Node π} {n' : Node π'} (h : W.nodes stage n n') :
    Mirrors W stage (fun _ => Eq) (part n) (part n') :=
  .compile h fun _ _ _ => .done rfl

theorem part?_mirrors {n : Option (Node π)} {n' : Option (Node π')}
    (h : Option.Rel (W.nodes stage) n n') : Mirrors W stage (fun _ => Eq) (part? n) (part? n') := by
  cases h with
  | none => exact .done rfl
  | some h =>
    refine (part_mirrors h).bind ?_
    rintro later - c _ rfl
    exact .done rfl

theorem parts_mirrors {listed : List (Node π)} {listed' : List (Node π')} (le : stage ≤ later)
    (h : List.Forall₂ (W.nodes stage) listed listed') :
    Mirrors W later (fun _ => Eq) (parts listed) (parts listed') := by
  induction h generalizing later with
  | nil => exact .done rfl
  | cons h _ ih =>
    refine (part_mirrors (W.nodes_mono le h)).bind ?_
    rintro now from_later c _ rfl
    refine (ih (le.trans from_later)).bind ?_
    rintro last - cs _ rfl
    exact .done rfl

theorem entries_mirrors {listed : List (String × Node π)} {listed' : List (String × Node π')}
    (le : stage ≤ later)
    (h : List.Forall₂ (fun a b => a.1 = b.1 ∧ W.nodes stage a.2 b.2) listed listed') :
    Mirrors W later (fun _ => Eq) (entries listed) (entries listed') := by
  induction h generalizing later with
  | nil => exact .done rfl
  | @cons first first' _ _ h _ ih =>
    obtain ⟨key, n⟩ := first
    obtain ⟨key', n'⟩ := first'
    obtain ⟨rfl, related⟩ := h
    refine (part_mirrors (W.nodes_mono le related)).bind ?_
    rintro now from_later c _ rfl
    refine (ih (le.trans from_later)).bind ?_
    rintro last - cs _ rfl
    exact .done rfl

end Plan

/-! ### Nodes -/

/-- Two adapters answer partners in the same way from a stage on: they see the same in them, and
hand out partners. -/
structure Adapter.Mirrors (W : Pairing σ π π') (stage : σ) (adapter : Adapter π)
    (adapter' : Adapter π') (n : Node π) (n' : Node π') : Prop where
  modifier : adapter.modifier? n = adapter'.modifier? n'
  shape : adapter.shape? n = adapter'.shape? n'
  literal : adapter.literal n = adapter'.literal n'
  values : adapter.values n = adapter'.values n'
  className : adapter.className n = adapter'.className n'
  constraints : adapter.constraints n = adapter'.constraints n'
  description : adapter.description n = adapter'.description n'
  title : adapter.title n = adapter'.title n'
  default : adapter.default n = adapter'.default n'
  examples : adapter.examples n = adapter'.examples n'
  isDeprecated : adapter.isDeprecated n = adapter'.isDeprecated n'
  inner : Answer.Mirrors W stage (fun later => Option.Rel (W.nodes later)) (adapter.inner n)
    (adapter'.inner n')
  entries : Answer.Mirrors W stage
    (fun later => List.Forall₂ fun a b => a.1 = b.1 ∧ W.nodes later a.2 b.2) (adapter.entries n)
    (adapter'.entries n')
  element : Answer.Mirrors W stage (fun later => Option.Rel (W.nodes later)) (adapter.element n)
    (adapter'.element n')
  options : Answer.Mirrors W stage (fun later => List.Forall₂ (W.nodes later)) (adapter.options n)
    (adapter'.options n')
  positions : Answer.Mirrors W stage (fun later => List.Forall₂ (W.nodes later))
    (adapter.positions n) (adapter'.positions n')
  rest : Answer.Mirrors W stage (fun later => Option.Rel (W.nodes later)) (adapter.rest n)
    (adapter'.rest n')
  recordKey : Answer.Mirrors W stage (fun later => Option.Rel (W.nodes later))
    (adapter.recordKey n) (adapter'.recordKey n')
  recordValue : Answer.Mirrors W stage (fun later => Option.Rel (W.nodes later))
    (adapter.recordValue n) (adapter'.recordValue n')
  mapKey : Answer.Mirrors W stage (fun later => Option.Rel (W.nodes later)) (adapter.mapKey n)
    (adapter'.mapKey n')
  mapValue : Answer.Mirrors W stage (fun later => Option.Rel (W.nodes later)) (adapter.mapValue n)
    (adapter'.mapValue n')
  member : Answer.Mirrors W stage (fun later => Option.Rel (W.nodes later)) (adapter.member n)
    (adapter'.member n')
  parts : Answer.Mirrors W stage (fun later => List.Forall₂ (W.nodes later)) (adapter.parts n)
    (adapter'.parts n')
  awaited : Answer.Mirrors W stage (fun later => Option.Rel (W.nodes later)) (adapter.awaited n)
    (adapter'.awaited n')

variable {W : Pairing σ π π'} {stage later : σ} {adapter : Adapter π} {adapter' : Adapter π'}
  {n : Node π} {n' : Node π'}

/-- Adapters that answer in the same way go on to do so. -/
theorem Adapter.Mirrors.mono (h : Mirrors W stage adapter adapter' n n') (le : stage ≤ later) :
    Mirrors W later adapter adapter' n n' :=
  { h with
    inner := h.inner.mono le
    entries := h.entries.mono le
    element := h.element.mono le
    options := h.options.mono le
    positions := h.positions.mono le
    rest := h.rest.mono le
    recordKey := h.recordKey.mono le
    recordValue := h.recordValue.mono le
    mapKey := h.mapKey.mono le
    mapValue := h.mapValue.mono le
    member := h.member.mono le
    parts := h.parts.mono le
    awaited := h.awaited.mono le }

/-- Two questions are put before the two answers are compiled. -/
theorem Plan.keyed_mirrors {related : σ → β → β' → Prop} {key value : Answer (Option (Node π))}
    {key' value' : Answer (Option (Node π'))} {after : Option NodeSchema → Option NodeSchema → β}
    {after' : Option NodeSchema → Option NodeSchema → β'}
    (keys : Answer.Mirrors W stage (fun later => Option.Rel (W.nodes later)) key key')
    (values : Answer.Mirrors W stage (fun later => Option.Rel (W.nodes later)) value value')
    (rest : ∀ later c c', related later (after c c') (after' c c')) :
    Mirrors W stage related
      (do
        let key ← question key
        let value ← question value
        let key ← part? key
        return after key (← part? value))
      (do
        let key ← question key'
        let value ← question value'
        let key ← part? key
        return after' key (← part? value)) := by
  refine (question_mirrors keys).bind fun now from_stage node node' asked => ?_
  refine (question_mirrors (values.mono from_stage)).bind fun later le other other' asked' => ?_
  refine (part?_mirrors (W.nodes_mono_option le asked)).bind ?_
  rintro last from_later c _ rfl
  refine (part?_mirrors (W.nodes_mono_option from_later asked')).bind ?_
  rintro final - c' _ rfl
  exact .done (rest _ _ _)

/-- The structures of partners are put together in the same way. -/
theorem Structure.ofShape_mirrors (options : DocumentOptions)
    (h : Adapter.Mirrors W stage adapter adapter' n n') (shape : Shape) :
    Plan.Mirrors W stage (fun _ => Eq) (ofShape options n adapter shape)
      (ofShape options n' adapter' shape) := by
  cases shape with
  | literal => exact .done (by rw [h.literal])
  | enumeration => exact .done (by rw [h.values])
  | instanceOf => exact .done (by rw [h.className])
  | date | bigint | symbol | function | any | unknown | string | number | boolean | null
    | undefined | void | never => exact .done rfl
  | promise =>
    refine (Plan.question_mirrors h.awaited).bind fun later _ inner inner' related => ?_
    cases related with
    | none => exact .done rfl
    | some related =>
      refine (Plan.part_mirrors related).bind ?_
      rintro last - c _ rfl
      exact .done rfl
  | union =>
    refine (Plan.question_mirrors h.options).bind fun later _ listed listed' related => ?_
    refine (Plan.parts_mirrors le_rfl related).bind ?_
    rintro last - cs _ rfl
    dsimp only
    split <;> exact .done rfl
  | intersection =>
    refine (Plan.question_mirrors h.parts).bind fun later _ listed listed' related => ?_
    refine (Plan.parts_mirrors le_rfl related).bind ?_
    rintro last - cs _ rfl
    exact .done rfl
  | tuple =>
    refine (Plan.question_mirrors h.positions).bind fun later le listed listed' related => ?_
    refine (Plan.parts_mirrors le_rfl related).bind ?_
    rintro now from_later cs _ rfl
    refine (Plan.question_mirrors (h.rest.mono (le.trans from_later))).bind
      fun last _ node node' related => ?_
    refine (Plan.part?_mirrors related).bind ?_
    rintro final - c _ rfl
    exact .done rfl
  | object =>
    refine (Plan.question_mirrors h.entries).bind fun later _ listed listed' related => ?_
    refine (Plan.entries_mirrors le_rfl related).bind ?_
    rintro last - cs _ rfl
    exact .done rfl
  | array =>
    refine (Plan.question_mirrors h.element).bind fun later _ node node' related => ?_
    refine (Plan.part?_mirrors related).bind ?_
    rintro last - c _ rfl
    exact .done rfl
  | set =>
    refine (Plan.question_mirrors h.member).bind fun later _ node node' related => ?_
    refine (Plan.part?_mirrors related).bind ?_
    rintro last - c _ rfl
    exact .done rfl
  | record =>
    exact Plan.keyed_mirrors h.recordKey h.recordValue fun _ _ _ => rfl
  | map =>
    exact Plan.keyed_mirrors h.mapKey h.mapValue fun _ _ _ => rfl

/-- Layers that are seen in the same way contribute the same. -/
theorem Assembly.addLayer_mirrors (h : Adapter.Mirrors W stage adapter adapter' n n') (f : Assembly)
    (modifier : Option Modifier) :
    f.addLayer adapter n modifier = f.addLayer adapter' n' modifier := by
  simp only [addLayer, add, h.constraints, h.title, h.description, h.default, h.examples,
    h.isDeprecated]

end SchemaBridge
