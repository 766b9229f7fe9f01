import SchemaBridge.Proofs.Plan.Outcome

/-!
# The parts of a structure

Which nodes the plan of a structure compiles: those that the extractors of its shape answer with. A
plan that is carried out compiles no other nodes, and if its questions are answered in the same way
whenever they are put, it compiles all of them.

## Main definitions

* `Answer.Settled` : a question is always answered, and always in the same way.
* `Plan.Mentions` : the parts that a plan may compile.
* `Adapter.Extracts` : the parts of a node of a shape.
* `Adapter.Steady` : all questions about a node are settled.

## Main results

* `Structure.extracts_of_mentions` : the plan of a shape compiles no parts but those that its
  extractors give.
* `Structure.reaches_ofShape` : a steady plan compiles all of them.
-/

namespace SchemaBridge

variable {π α β : Type}

namespace Answer

/-- A question is always answered, and always in the same way. -/
def Settled (answer : Answer β) : Prop := ∃ value, ∀ supply, (answer supply).1 = .ok value

theorem Settled.eq_of_gives {answer : Answer β} (h : answer.Settled) {value : β}
    (gives : Gives answer value) (supply : Nat) : (answer supply).1 = .ok value := by
  obtain ⟨other, always⟩ := h
  obtain ⟨asked, given⟩ := gives
  rw [always] at given ⊢
  exact given

theorem Settled.gives_unique {answer : Answer β} (h : answer.Settled) {value other : β}
    (first : Gives answer value) (second : Gives answer other) : value = other :=
  Except.ok.inj ((h.eq_of_gives first 0).symm.trans (h.eq_of_gives second 0))

end Answer

namespace Plan

/-! ### Parts that may be compiled -/

/-- A plan may compile a part. -/
inductive Mentions : Plan π α → Node π → Prop where
  | here {part : Node π} {next : NodeSchema → Plan π α} : Mentions (.compile part next) part
  | later {part other : Node π} {next : NodeSchema → Plan π α} {c : NodeSchema}
      (rest : Mentions (next c) other) : Mentions (.compile part next) other
  | ask {γ : Type} {answer : Answer γ} {next : γ → Plan π α} {given : γ} {other : Node π}
      (gives : Answer.Gives answer given) (rest : Mentions (next given) other) :
      Mentions (.ask answer next) other

/-- Any answers of parts are possible. -/
def Anything : Node π → NodeSchema → Prop := fun _ _ => True

@[simp] theorem not_mentions_pure (a : α) (node : Node π) :
    ¬ Mentions (pure a : Plan π α) node := nofun

@[simp] theorem mentions_bind (plan : Plan π α) (after : α → Plan π β) (node : Node π) :
    Mentions (plan >>= after) node ↔
      Mentions plan node ∨ ∃ a, Yields Anything plan a ∧ Mentions (after a) node := by
  change Mentions (plan.andThen after) node ↔ _
  constructor
  · intro h
    induction plan with
    | done a => exact .inr ⟨a, .done a, h⟩
    | ask answer next ih =>
      obtain _ | _ | ⟨gives, rest⟩ := h
      refine (ih _ rest).imp (.ask gives) ?_
      exact fun ⟨a, yields, mentions⟩ => ⟨a, .ask gives yields, mentions⟩
    | compile part next ih =>
      obtain _ | rest | _ := h
      · exact .inl .here
      · refine (ih _ rest).imp .later ?_
        exact fun ⟨a, yields, mentions⟩ => ⟨a, .compile trivial yields, mentions⟩
  · rintro (h | ⟨a, yields, h⟩)
    · induction h with
      | here => exact .here
      | later _ ih => exact .later ih
      | ask gives _ ih => exact .ask gives ih
    · induction yields with
      | done => exact h
      | ask gives _ ih => exact .ask gives (ih h)
      | compile _ _ ih => exact .later (ih h)

@[simp] theorem not_mentions_question (answer : Answer β) (node : Node π) :
    ¬ Mentions (question answer : Plan π β) node := by
  rintro (_ | _ | ⟨_, rest⟩)
  cases rest

@[simp] theorem mentions_part (part node : Node π) :
    Mentions (Plan.part part) node ↔ node = part := by
  constructor
  · rintro (_ | rest | _)
    · rfl
    · cases rest
  · rintro rfl
    exact .here

@[simp] theorem mentions_part? (part? : Option (Node π)) (node : Node π) :
    Mentions (Plan.part? part?) node ↔ part? = some node := by
  cases part? with
  | none => simp [Plan.part?]
  | some part => simp [Plan.part?, eq_comm]

private instance : Nonempty NodeSchema := ⟨.empty⟩

@[simp] theorem mentions_parts (nodes : List (Node π)) (node : Node π) :
    Mentions (parts nodes) node ↔ node ∈ nodes := by
  induction nodes with
  | nil => simp [parts]
  | cons first rest ih => simp [parts, ih, Anything]

@[simp] theorem mentions_entries (entries : List (String × Node π)) (node : Node π) :
    Mentions (Plan.entries entries) node ↔ ∃ key, (key, node) ∈ entries := by
  induction entries with
  | nil => simp [Plan.entries]
  | cons first rest ih =>
    obtain ⟨key, first⟩ := first
    simp [Plan.entries, ih, Anything, exists_or]

/-- A run compiles no parts but those that its plan may compile. -/
theorem Visits.mentions {child : Node π → CompileM NodeSchema} {plan : Plan π α} {s t : Ledger}
    {node : Node π} (h : Visits child plan s node t) : Mentions plan node := by
  induction h with
  | here => exact .here
  | later _ ih => exact .later ih
  | ask gives _ ih => exact .ask ⟨_, congrArg Prod.fst gives⟩ ih

end Plan

/-- A value to which a run of a plan comes is one of the values of the plan. -/
theorem Structure.yields_of_carryOut {child : Node π → CompileM NodeSchema} {plan : Plan π α}
    {s t : Ledger} {a : α} (run : carryOut child plan s = (.ok a, t)) :
    Plan.Yields Plan.Anything plan a := by
  induction plan generalizing s with
  | done value =>
    obtain rfl := Except.ok.inj (Prod.mk.inj run).1
    exact .done _
  | ask answer next ih =>
    rcases given : answer s.supply with ⟨error | value, supply⟩
    · rw [carryOut_ask_of_error child next given] at run
      cases run
    · rw [carryOut_ask_of_ok child next given] at run
      exact .ask ⟨_, congrArg Prod.fst given⟩ (ih value run)
  | compile part next ih => exact .compile trivial (ih _ run)

/-! ### The parts of a node -/

/-- The parts of a node, by the extractors of its shape. -/
inductive Adapter.Extracts (adapter : Adapter π) (node : Node π) : Shape → Node π → Prop where
  | awaited {part : Node π} (gives : Answer.Gives (adapter.awaited node) (some part)) :
      Extracts adapter node .promise part
  | option {options : List (Node π)} {part : Node π}
      (gives : Answer.Gives (adapter.options node) options) (mem : part ∈ options) :
      Extracts adapter node .union part
  | conjunct {parts : List (Node π)} {part : Node π}
      (gives : Answer.Gives (adapter.parts node) parts) (mem : part ∈ parts) :
      Extracts adapter node .intersection part
  | position {positions : List (Node π)} {part : Node π}
      (gives : Answer.Gives (adapter.positions node) positions) (mem : part ∈ positions) :
      Extracts adapter node .tuple part
  | rest {part : Node π} (gives : Answer.Gives (adapter.rest node) (some part)) :
      Extracts adapter node .tuple part
  | entry {entries : List (String × Node π)} {key : String} {part : Node π}
      (gives : Answer.Gives (adapter.entries node) entries) (mem : (key, part) ∈ entries) :
      Extracts adapter node .object part
  | element {part : Node π} (gives : Answer.Gives (adapter.element node) (some part)) :
      Extracts adapter node .array part
  | recordKey {part : Node π} (gives : Answer.Gives (adapter.recordKey node) (some part)) :
      Extracts adapter node .record part
  | recordValue {part : Node π} (gives : Answer.Gives (adapter.recordValue node) (some part)) :
      Extracts adapter node .record part
  | mapKey {part : Node π} (gives : Answer.Gives (adapter.mapKey node) (some part)) :
      Extracts adapter node .map part
  | mapValue {part : Node π} (gives : Answer.Gives (adapter.mapValue node) (some part)) :
      Extracts adapter node .map part
  | member {part : Node π} (gives : Answer.Gives (adapter.member node) (some part)) :
      Extracts adapter node .set part

/-- All questions of an adapter about the nodes below a node are settled. -/
structure Adapter.Steady (adapter : Adapter π) (node : Node π) : Prop where
  inner : (adapter.inner node).Settled
  entries : (adapter.entries node).Settled
  element : (adapter.element node).Settled
  options : (adapter.options node).Settled
  positions : (adapter.positions node).Settled
  rest : (adapter.rest node).Settled
  recordKey : (adapter.recordKey node).Settled
  recordValue : (adapter.recordValue node).Settled
  mapKey : (adapter.mapKey node).Settled
  mapValue : (adapter.mapValue node).Settled
  member : (adapter.member node).Settled
  parts : (adapter.parts node).Settled
  awaited : (adapter.awaited node).Settled

namespace Structure

open Plan Adapter

variable {options : DocumentOptions} {adapter : Adapter π} {node part : Node π} {shape : Shape}

/-- The plan of a shape may only compile parts that the extractors of the shape give. -/
theorem extracts_of_mentions (h : Mentions (ofShape options node adapter shape) part) :
    adapter.Extracts node shape part := by
  cases shape <;>
    simp only [ofShape, mentions_bind, not_mentions_question, false_or, yields_question,
      mentions_parts, mentions_part?, mentions_entries, not_mentions_pure, and_false, exists_false,
      or_false] at h
  case promise =>
    obtain ⟨_ | inner, gives, mentions⟩ := h
    · exact absurd mentions (not_mentions_pure _ _)
    · simp only [mentions_bind, mentions_part, not_mentions_pure, and_false, exists_false,
        or_false] at mentions
      exact mentions ▸ .awaited gives
  case union =>
    obtain ⟨options, gives, mem | ⟨cs, -, mentions⟩⟩ := h
    · exact .option gives mem
    · split at mentions <;> exact absurd mentions (not_mentions_pure _ _)
  case intersection =>
    obtain ⟨parts, gives, mem⟩ := h
    exact .conjunct gives mem
  case tuple =>
    obtain ⟨positions, gives, mem | ⟨-, -, rest, gives', rfl⟩⟩ := h
    · exact .position gives mem
    · exact .rest gives'
  case object =>
    obtain ⟨entries, gives, key, mem⟩ := h
    exact .entry gives mem
  case array =>
    obtain ⟨_, gives, rfl⟩ := h
    exact .element gives
  case record =>
    obtain ⟨key, givesKey, value, givesValue, rfl | ⟨-, -, rfl⟩⟩ := h
    · exact .recordKey givesKey
    · exact .recordValue givesValue
  case map =>
    obtain ⟨key, givesKey, value, givesValue, rfl | ⟨-, -, rfl⟩⟩ := h
    · exact .mapKey givesKey
    · exact .mapValue givesValue
  case set =>
    obtain ⟨_, gives, rfl⟩ := h
    exact .member gives

/-! ### Runs that compile all parts -/

variable (child : Node π → CompileM NodeSchema)

/-- Every run of a plan comes to a value. -/
def Succeeds (plan : Plan π α) : Prop := ∀ s, ∃ a t, carryOut child plan s = (.ok a, t)

/-- Every run of a plan compiles a part. -/
def Reaches (plan : Plan π α) (node : Node π) : Prop := ∀ s, ∃ t, Visits child plan s node t

variable {child}

theorem Succeeds.bind {plan : Plan π α} {after : α → Plan π β} (first : Succeeds child plan)
    (second : ∀ a, Succeeds child (after a)) : Succeeds child (plan >>= after) := by
  intro s
  obtain ⟨a, t, run⟩ := first s
  obtain ⟨b, u, run'⟩ := second a t
  exact ⟨b, u, (carryOut_bind_of_ok after run).trans run'⟩

theorem succeeds_pure (a : α) : Succeeds child (pure a : Plan π α) := fun s => ⟨a, s, rfl⟩

theorem succeeds_part (node : Node π) : Succeeds child (Plan.part node) := fun _ => ⟨_, _, rfl⟩

theorem succeeds_part? (node? : Option (Node π)) : Succeeds child (Plan.part? node?) := by
  cases node? with
  | none => exact succeeds_pure none
  | some node => exact (succeeds_part node).bind fun _ => succeeds_pure _

theorem succeeds_parts (nodes : List (Node π)) : Succeeds child (Plan.parts nodes) := by
  induction nodes with
  | nil => exact succeeds_pure []
  | cons node rest ih => exact (succeeds_part node).bind fun _ => ih.bind fun _ => succeeds_pure _

theorem visits_bind {plan : Plan π α} {after : α → Plan π β} {s t : Ledger}
    (h : Visits child plan s node t) : Visits child (plan >>= after) s node t := by
  change Visits child (plan.andThen after) s node t
  induction h with
  | here => exact .here
  | later _ ih => exact .later ih
  | ask gives _ ih => exact .ask gives ih

theorem visits_bind_of_ok {plan : Plan π α} {after : α → Plan π β} {a : α} {s t u : Ledger}
    (run : carryOut child plan s = (.ok a, t)) (h : Visits child (after a) t node u) :
    Visits child (plan >>= after) s node u := by
  change Visits child (plan.andThen after) s node u
  induction plan generalizing s with
  | done value =>
    obtain ⟨same, rfl⟩ := Prod.mk.inj run
    obtain rfl := Except.ok.inj same
    exact h
  | ask answer next ih =>
    rcases given : answer s.supply with ⟨error | value, supply⟩
    · rw [carryOut_ask_of_error child next given] at run
      cases run
    · rw [carryOut_ask_of_ok child next given] at run
      exact .ask given (ih value run)
  | compile part next ih => exact .later (ih _ run)

theorem Reaches.bind {plan : Plan π α} {after : α → Plan π β} (h : Reaches child plan node) :
    Reaches child (plan >>= after) node := fun s =>
  (h s).imp fun _ visits => visits_bind visits

theorem Succeeds.reaches {plan : Plan π α} {after : α → Plan π β} (first : Succeeds child plan)
    (second : ∀ a, Reaches child (after a) node) : Reaches child (plan >>= after) node := by
  intro s
  obtain ⟨a, t, run⟩ := first s
  exact (second a t).imp fun _ visits => visits_bind_of_ok run visits

/-- A settled question has one answer to go on with. -/
theorem reaches_question {answer : Answer β} {value : β} {after : β → Plan π α}
    (settled : answer.Settled) (gives : Answer.Gives answer value)
    (rest : Reaches child (after value) node) :
    Reaches child (Plan.question answer >>= after) node := by
  intro s
  obtain ⟨t, visits⟩ := rest { s with supply := (answer s.supply).2 }
  exact ⟨t, .ask (Prod.ext (settled.eq_of_gives gives s.supply) rfl) visits⟩

theorem reaches_part (node : Node π) : Reaches child (Plan.part node) node := fun s => ⟨s, .here⟩

theorem reaches_part? (node : Node π) : Reaches child (Plan.part? (some node)) node :=
  (reaches_part node).bind

theorem reaches_parts {nodes : List (Node π)} (mem : node ∈ nodes) :
    Reaches child (Plan.parts nodes) node := by
  induction nodes with
  | nil => cases mem
  | cons first rest ih =>
    rcases List.mem_cons.1 mem with rfl | mem
    · exact (reaches_part node).bind
    · exact (succeeds_part first).reaches fun _ => (ih mem).bind

theorem reaches_entries {entries : List (String × Node π)} {key : String}
    (mem : (key, node) ∈ entries) : Reaches child (Plan.entries entries) node := by
  induction entries with
  | nil => cases mem
  | cons first rest ih =>
    obtain ⟨name, first⟩ := first
    rcases List.mem_cons.1 mem with same | mem
    · obtain ⟨rfl, rfl⟩ := Prod.mk.inj same
      exact (reaches_part node).bind
    · exact (succeeds_part first).reaches fun _ => (ih mem).bind

/-- Every run of the plan of a shape compiles all parts that the extractors of the shape give, if
the questions about the node are settled. -/
theorem reaches_ofShape (steady : adapter.Steady node) (h : adapter.Extracts node shape part) :
    Reaches child (ofShape options node adapter shape) part := by
  cases h with
  | awaited gives => exact reaches_question steady.awaited gives (reaches_part part).bind
  | option gives mem => exact reaches_question steady.options gives (reaches_parts mem).bind
  | conjunct gives mem => exact reaches_question steady.parts gives (reaches_parts mem).bind
  | position gives mem => exact reaches_question steady.positions gives (reaches_parts mem).bind
  | rest gives =>
    obtain ⟨positions, always⟩ := steady.positions
    refine reaches_question steady.positions ⟨0, always 0⟩ ?_
    refine (succeeds_parts positions).reaches fun _ => ?_
    exact reaches_question steady.rest gives (reaches_part? part).bind
  | entry gives mem => exact reaches_question steady.entries gives (reaches_entries mem).bind
  | element gives => exact reaches_question steady.element gives (reaches_part? part).bind
  | recordKey gives =>
    obtain ⟨value, always⟩ := steady.recordValue
    refine reaches_question steady.recordKey gives ?_
    exact reaches_question steady.recordValue ⟨0, always 0⟩ (reaches_part? part).bind
  | recordValue gives =>
    obtain ⟨key, always⟩ := steady.recordKey
    refine reaches_question steady.recordKey ⟨0, always 0⟩
      (reaches_question steady.recordValue gives ?_)
    exact (succeeds_part? key).reaches fun _ => (reaches_part? part).bind
  | mapKey gives =>
    obtain ⟨value, always⟩ := steady.mapValue
    refine reaches_question steady.mapKey gives ?_
    exact reaches_question steady.mapValue ⟨0, always 0⟩ (reaches_part? part).bind
  | mapValue gives =>
    obtain ⟨key, always⟩ := steady.mapKey
    refine reaches_question steady.mapKey ⟨0, always 0⟩ (reaches_question steady.mapValue gives ?_)
    exact (succeeds_part? key).reaches fun _ => (reaches_part? part).bind
  | member gives => exact reaches_question steady.member gives (reaches_part? part).bind

end Structure

end SchemaBridge
