import SchemaBridge.Proofs.Compile.Walks

/-!
# Runs in which nothing is left out

A call leaves something out of its answer where a limit cuts it short, where an adapter fails, or
where a node in progress is referred to. In a run without limits, failures and names every answer is
complete: the layers of the node are laid on what its structure comes to.

## Main definitions

* `Answer.Sure`, `Adapter.Sure` : questions that are always answered.
* `Call.Completes` : a call whose answer leaves nothing out.

## Main results

* `Structure.succeeds_ofShape` : the plan of a shape comes to a value if its questions are answered.
* `Call.Within.completes` : every call of such a run completes.
-/

namespace SchemaBridge

open Chain Ledger Compile Plan

variable {π β : Type}

/-- A question is always answered. -/
def Answer.Sure (answer : Answer β) : Prop :=
  ∀ supply, ∃ value next, answer supply = (.ok value, next)

/-- All questions of an adapter about the nodes below a node are answered. -/
structure Adapter.Sure (adapter : Adapter π) (node : Node π) : Prop where
  inner : (adapter.inner node).Sure
  entries : (adapter.entries node).Sure
  element : (adapter.element node).Sure
  options : (adapter.options node).Sure
  positions : (adapter.positions node).Sure
  rest : (adapter.rest node).Sure
  recordKey : (adapter.recordKey node).Sure
  recordValue : (adapter.recordValue node).Sure
  mapKey : (adapter.mapKey node).Sure
  mapValue : (adapter.mapValue node).Sure
  member : (adapter.member node).Sure
  parts : (adapter.parts node).Sure
  awaited : (adapter.awaited node).Sure

theorem Answer.Sure.not_fails {answer : Answer β} (h : answer.Sure) (error : VendorError) :
    ¬ Answer.Fails answer error := by
  rintro ⟨supply, fails⟩
  obtain ⟨value, next, given⟩ := h supply
  rw [given] at fails
  cases fails

/-- A question that is always answered in the same way is always answered. -/
theorem Answer.Settled.sure {answer : Answer β} (h : answer.Settled) : answer.Sure := by
  obtain ⟨value, always⟩ := h
  exact fun supply => ⟨value, (answer supply).2, Prod.ext (always supply) rfl⟩

theorem Adapter.Steady.sure {adapter : Adapter π} {node : Node π}
    (h : adapter.Steady node) : adapter.Sure node where
  inner := h.inner.sure
  entries := h.entries.sure
  element := h.element.sure
  options := h.options.sure
  positions := h.positions.sure
  rest := h.rest.sure
  recordKey := h.recordKey.sure
  recordValue := h.recordValue.sure
  mapKey := h.mapKey.sure
  mapValue := h.mapValue.sure
  member := h.member.sure
  parts := h.parts.sure
  awaited := h.awaited.sure

namespace Structure

variable {child : Node π → CompileM NodeSchema}

theorem succeeds_question {answer : Answer β} (h : answer.Sure) :
    Succeeds child (Plan.question answer : Plan π β) := by
  intro s
  obtain ⟨value, next, given⟩ := h s.supply
  exact ⟨value, { s with supply := next }, carryOut_ask_of_ok child _ given⟩

theorem succeeds_entries (entries : List (String × Node π)) :
    Succeeds child (Plan.entries entries) := by
  induction entries with
  | nil => exact succeeds_pure []
  | cons entry rest ih => exact (succeeds_part _).bind fun _ => ih.bind fun _ => succeeds_pure _

/-- The plan of a shape comes to a value if the questions about the node are answered. -/
theorem succeeds_ofShape {adapter : Adapter π} {node : Node π} (sure : adapter.Sure node)
    (options : DocumentOptions) (shape : Shape) :
    Succeeds child (ofShape options node adapter shape) := by
  cases shape with
  | promise =>
    refine (succeeds_question sure.awaited).bind fun inner => ?_
    cases inner with
    | some inner => exact (succeeds_part inner).bind fun _ => succeeds_pure _
    | none => exact succeeds_pure _
  | union =>
    refine (succeeds_question sure.options).bind fun options => ?_
    refine (succeeds_parts options).bind fun cs => ?_
    split <;> exact succeeds_pure _
  | intersection =>
    exact (succeeds_question sure.parts).bind fun parts =>
      (succeeds_parts parts).bind fun _ => succeeds_pure _
  | tuple =>
    exact (succeeds_question sure.positions).bind fun positions =>
      (succeeds_parts positions).bind fun _ => (succeeds_question sure.rest).bind fun rest =>
        (succeeds_part? rest).bind fun _ => succeeds_pure _
  | object =>
    exact (succeeds_question sure.entries).bind fun entries =>
      (succeeds_entries entries).bind fun _ => succeeds_pure _
  | array =>
    exact (succeeds_question sure.element).bind fun element =>
      (succeeds_part? element).bind fun _ => succeeds_pure _
  | set =>
    exact (succeeds_question sure.member).bind fun element =>
      (succeeds_part? element).bind fun _ => succeeds_pure _
  | record =>
    exact (succeeds_question sure.recordKey).bind fun key =>
      (succeeds_question sure.recordValue).bind fun value =>
        (succeeds_part? key).bind fun _ => (succeeds_part? value).bind fun _ => succeeds_pure _
  | map =>
    exact (succeeds_question sure.mapKey).bind fun key =>
      (succeeds_question sure.mapValue).bind fun value =>
        (succeeds_part? key).bind fun _ => (succeeds_part? value).bind fun _ => succeeds_pure _
  | _ => exact succeeds_pure _

end Structure

/-- All questions about the nodes that a node leads to are answered. -/
def SureBelow (registry : Registry π) (node : Node π) : Prop :=
  ∀ other, Relation.ReflTransGen (Leads registry) node other → ∀ adapter,
    (registry.resolve other).value = some adapter → adapter.Sure other

/-- No chain fails where all questions are answered. -/
theorem Chain.Unwraps.ne_raised {registry : Registry π} {node : Node π} {adapter : Adapter π}
    {layers : List (PeeledLayer π)} {isOptional : Bool} {stop : Except CompileFailure (ChainEnd π)}
    (sure : SureBelow registry node) (claims : (registry.resolve node).value = some adapter)
    (h : Unwraps registry node adapter layers isOptional stop) (error : VendorError) :
    stop ≠ .error (.raised error) := by
  induction h with
  | base | endless | hollow | reentered | unclaimed => exact nofun
  | failed _ fails => exact absurd fails ((sure _ .refl _ claims).inner.not_fails _)
  | layer wrapped gives claims' _ ih =>
    exact ih (fun other further => sure other (.head (.inside claims wrapped gives) further))
      claims'

namespace Call

variable {context : CompileContext π} {root call : Call π}

/-- A call whose answer leaves nothing out: nobody claims its node, or the layers of the node are
laid on what is at their end, where no node has a name. -/
inductive Completes (context : CompileContext π) (call : Call π) : Prop where
  | unclaimed (nobody : (context.registry.resolve call.node).value = none)
      (answers : call.answer context = .empty)
  | whole {adapter : Adapter π} {layers : List (PeeledLayer π)} {isOptional : Bool}
      {stop : ChainEnd π} {core : Assembly}
      (claims : (context.registry.resolve call.node).value = some adapter)
      (unwraps : Unwraps context.registry call.node adapter layers isOptional (.ok stop))
      (atEnd : AtEnd context [] (Enters context call) (Hands context call) stop core)
      (answers : call.answer context =
        ⟨(wrap layers core).schema, isOptional, (wrap layers core).bounds⟩)

/-- Every call of a run without names, limits and failures completes. -/
theorem Within.completes (within : Within context root call)
    (trusted : Trusted context root root.books) (unnamed : (root.after context).names = [])
    (unlimited : ¬ (root.after context).Limited) (sure : SureBelow context.registry call.node) :
    Completes context call := by
  obtain ⟨atCall, -, later⟩ := within.keeps trusted
  -- A node that has a name at the end of a call would have it at the end of the run.
  have nameless {u : Ledger} (grows : Grows u (after context call)) (id : Identity)
    (name : String) :
      Table.get? u.names id ≠ some name := by
    intro named
    have atEnd := later.names id name (grows.names id name named)
    rw [unnamed] at atEnd
    cases atEnd
  cases call.begins context with
  | inProgress active =>
    obtain ⟨name, named, -⟩ := answer_of_active atCall active
    exact absurd named (nameless (Grows.refl _) _ _)
  | tooDeep new => exact absurd (later.limited (limited_of_tooDeep new)) unlimited
  | unclaimed new nobody =>
    refine .unclaimed nobody ?_
    rw [answer, Compile.node, step_of_unclaimed context new nobody]
  | @claimed levels node adapter s new claims =>
    have spawned (inner : Call π) (spawns : Spawns context ⟨levels + 1, node, s⟩ inner) :
        Keeps context root inner := Call.keeps (within.tail spawns)
    have atStart := trusted_resolved atCall
    have result := @outcome π context levels node adapter s new claims
    generalize answers : answer context ⟨levels + 1, node, s⟩ = c,
      ending : after context ⟨levels + 1, node, s⟩ = v at result nameless later
    cases result with
    | success peels atEnd =>
      obtain ⟨-, -, -, -, described, -⟩ := core_keeps new claims peels spawned atStart atEnd
      refine .whole claims peels.unwraps (described.mono fun id name named => ?_) answers
      exact absurd named (nameless (grows_finished _ _ _) id name)
    | @givenUp layers isOptional failure ids t peels =>
      cases failure with
      | endless vendor => exact absurd (later.limited ⟨_, List.mem_cons_self, rfl⟩) unlimited
      | raised error => exact absurd rfl (peels.unwraps.ne_raised sure claims error)
    | @broken layers isOptional base baseAdapter modifier ids t u failure peels runs =>
      obtain ⟨claimed, bare⟩ := peels.unwraps.bare_base claims
      obtain ⟨walk, starts⟩ := peels.unwraps.isWalk claims
      have reached : Relation.ReflTransGen (Leads context.registry) node base :=
        reached_of_isChain walk starts (List.mem_append_right _ (List.mem_singleton_self _))
      rw [Structure.compile] at runs
      cases seen : baseAdapter.shape? base with
      | none =>
        rw [seen] at runs
        cases runs
      | some shape =>
        rw [seen] at runs
        obtain ⟨assembly, u', ok⟩ := Structure.succeeds_ofShape (sure base reached _ claimed)
          context.options shape (noted base baseAdapter ids t)
        cases runs.symm.trans ok

end Call

end SchemaBridge
