import SchemaBridge.Proofs.Mirror.Plans
import SchemaBridge.Proofs.Plain.Recursion
import SchemaBridge.Proofs.Plan.Outcome

/-!
# The same unfolding

Two nodes have the same unfolding if their adapters answer alike about them, and about all nodes
that stand below them, whenever they are asked: the same facts, and nodes that have the same
unfolding again. Which node is handed out, and whether it was handed out before, makes no
difference. As the plain compilation never looks at identities, it answers the same for both.

## Main definitions

* `Answer.Alike`, `Plan.Alike` : two answers or plans go the same way.
* `Adapter.Alike` : two adapters answer alike about two nodes.
* `SameUnfolding` : two nodes have the same unfolding.
* `Pairing.ofNodes` : such nodes as partners, which makes what holds of partners hold of them.

## Main results

* `Plain.node_congr` : nodes of the same unfolding are compiled plainly to the same schema.
-/

namespace SchemaBridge

variable {π α α' : Type}

/-- Two questions are answered alike whenever they are put. -/
def Answer.Alike (related : α → α' → Prop) (answer : Answer α) (answer' : Answer α') : Prop :=
  ∀ supply supply', Concur related (answer supply).1 (answer' supply').1

/-! ### Plans -/

namespace Plan

/-- Two plans go the same way: they put questions that are answered alike, compile related parts,
and come to related values. -/
inductive Alike (nodes : Node π → Node π → Prop) :
    {α α' : Type} → (α → α' → Prop) → Plan π α → Plan π α' → Prop where
  | done {α α' : Type} {related : α → α' → Prop} {a : α} {a' : α'} (h : related a a') :
      Alike nodes related (.done a) (.done a')
  | ask {α α' γ γ' : Type} {related : α → α' → Prop} {given : γ → γ' → Prop} {answer : Answer γ}
      {answer' : Answer γ'} {next : γ → Plan π α} {next' : γ' → Plan π α'}
      (answers : Answer.Alike given answer answer')
      (rest : ∀ a a', given a a' → Alike nodes related (next a) (next' a')) :
      Alike nodes related (.ask answer next) (.ask answer' next')
  | compile {α α' : Type} {related : α → α' → Prop} {part part' : Node π}
      {next : NodeSchema → Plan π α} {next' : NodeSchema → Plan π α'} (parts : nodes part part')
      (rest : ∀ c, Alike nodes related (next c) (next' c)) :
      Alike nodes related (.compile part next) (.compile part' next')

end Plan

/-! ### Nodes -/

/-- Two adapters answer alike about two nodes: they see the same in them, and hand out related
nodes. -/
structure Adapter.Alike (nodes : Node π → Node π → Prop) (adapter adapter' : Adapter π)
    (node node' : Node π) : Prop where
  modifier : adapter.modifier? node = adapter'.modifier? node'
  shape : adapter.shape? node = adapter'.shape? node'
  literal : adapter.literal node = adapter'.literal node'
  values : adapter.values node = adapter'.values node'
  className : adapter.className node = adapter'.className node'
  constraints : adapter.constraints node = adapter'.constraints node'
  description : adapter.description node = adapter'.description node'
  title : adapter.title node = adapter'.title node'
  default : adapter.default node = adapter'.default node'
  examples : adapter.examples node = adapter'.examples node'
  isDeprecated : adapter.isDeprecated node = adapter'.isDeprecated node'
  inner : Answer.Alike (Option.Rel nodes) (adapter.inner node) (adapter'.inner node')
  entries : Answer.Alike (List.Forall₂ fun a b => a.1 = b.1 ∧ nodes a.2 b.2)
    (adapter.entries node) (adapter'.entries node')
  element : Answer.Alike (Option.Rel nodes) (adapter.element node) (adapter'.element node')
  options : Answer.Alike (List.Forall₂ nodes) (adapter.options node) (adapter'.options node')
  positions : Answer.Alike (List.Forall₂ nodes) (adapter.positions node) (adapter'.positions node')
  rest : Answer.Alike (Option.Rel nodes) (adapter.rest node) (adapter'.rest node')
  recordKey : Answer.Alike (Option.Rel nodes) (adapter.recordKey node) (adapter'.recordKey node')
  recordValue : Answer.Alike (Option.Rel nodes) (adapter.recordValue node)
    (adapter'.recordValue node')
  mapKey : Answer.Alike (Option.Rel nodes) (adapter.mapKey node) (adapter'.mapKey node')
  mapValue : Answer.Alike (Option.Rel nodes) (adapter.mapValue node) (adapter'.mapValue node')
  member : Answer.Alike (Option.Rel nodes) (adapter.member node) (adapter'.member node')
  parts : Answer.Alike (List.Forall₂ nodes) (adapter.parts node) (adapter'.parts node')
  awaited : Answer.Alike (Option.Rel nodes) (adapter.awaited node) (adapter'.awaited node')

/-- Related nodes are claimed by adapters that answer alike about them, or by nobody. -/
def Registry.Respects (registry : Registry π) (nodes : Node π → Node π → Prop) : Prop :=
  ∀ node node', nodes node node' →
    Option.Rel (fun adapter adapter' => Adapter.Alike nodes adapter adapter' node node')
      (registry.resolve node).value (registry.resolve node').value

/-- Two nodes have the same unfolding. -/
def SameUnfolding (registry : Registry π) (node node' : Node π) : Prop :=
  ∃ nodes, registry.Respects nodes ∧ nodes node node'

variable {nodes : Node π → Node π → Prop} {adapter adapter' : Adapter π} {n n' : Node π}

/-! ### Pairing nodes once and for all -/

/-- The only stage of a pairing that does not grow. -/
inductive OneStage where
  | only

instance : Preorder OneStage where
  le _ _ := True
  le_refl _ := trivial
  le_trans _ _ _ _ _ := trivial

/-- The pairing that knows all its pairs from the beginning, whatever the supplies are. -/
def Pairing.ofNodes (nodes : Node π → Node π → Prop) : Pairing OneStage π π where
  nodes _ := nodes
  supplies _ _ _ := True
  nodes_mono _ _ _ h := h

theorem Answer.Alike.mirrors {related : α → α' → Prop} {answer : Answer α} {answer' : Answer α'}
    (h : Alike related answer answer') :
    Mirrors (.ofNodes nodes) .only (fun _ => related) answer answer' :=
  fun _ _ supply supply' _ => ⟨.only, trivial, h supply supply', trivial⟩

theorem Adapter.Alike.mirrors (h : Alike nodes adapter adapter' n n') :
    Mirrors (.ofNodes nodes) .only adapter adapter' n n' where
  modifier := h.modifier
  shape := h.shape
  literal := h.literal
  values := h.values
  className := h.className
  constraints := h.constraints
  description := h.description
  title := h.title
  default := h.default
  examples := h.examples
  isDeprecated := h.isDeprecated
  inner := h.inner.mirrors
  entries := h.entries.mirrors
  element := h.element.mirrors
  options := h.options.mirrors
  positions := h.positions.mirrors
  rest := h.rest.mirrors
  recordKey := h.recordKey.mirrors
  recordValue := h.recordValue.mirrors
  mapKey := h.mapKey.mirrors
  mapValue := h.mapValue.mirrors
  member := h.member.mirrors
  parts := h.parts.mirrors
  awaited := h.awaited.mirrors

/-- Plans that go the same way for such a pairing are alike. -/
theorem Plan.Mirrors.alike {stage : OneStage} {related : OneStage → α → α' → Prop}
    {plan : Plan π α} {plan' : Plan π α'} (h : Mirrors (.ofNodes nodes) stage related plan plan') :
    Alike nodes (related .only) plan plan' := by
  induction h with
  | done h => exact .done h
  | ask answers _ ih =>
    refine .ask (fun supply supply' => ?_) fun a a' given => ih .only trivial a a' given
    obtain ⟨_, -, both, -⟩ := answers .only trivial supply supply' trivial
    exact both
  | compile parts _ ih => exact .compile parts fun c => ih .only trivial c

/-- Structures that are seen alike are put together in the same way. -/
theorem Structure.ofShape_alike (options : DocumentOptions)
    (h : Adapter.Alike nodes adapter adapter' n n') (shape : Shape) :
    Plan.Alike nodes Eq (ofShape options n adapter shape) (ofShape options n' adapter' shape) :=
  (ofShape_mirrors options h.mirrors shape).alike

/-- Layers that are seen alike contribute the same. -/
theorem Assembly.addLayer_congr (h : Adapter.Alike nodes adapter adapter' n n') (f : Assembly)
    (modifier : Option Modifier) :
    f.addLayer adapter n modifier = f.addLayer adapter' n' modifier :=
  addLayer_mirrors h.mirrors f modifier

namespace Plain

open Stateful

/-! ### Plain compilation of the same unfolding -/

/-- Two chains end alike: at nodes that are seen alike, or at nodes that nobody claims. -/
inductive EndsAlike (nodes : Node π → Node π → Prop) : ChainEnd π → ChainEnd π → Prop where
  | base {n n' : Node π} {adapter adapter' : Adapter π} (modifier : Option Modifier)
      (h : Adapter.Alike nodes adapter adapter' n n') :
      EndsAlike nodes (.base n adapter modifier) (.base n' adapter' modifier)
  | unclaimed : EndsAlike nodes .unclaimed .unclaimed

/-- Two chains are alike: their layers contribute the same, and they end alike. -/
structure ChainsAlike (nodes : Node π → Node π → Prop)
    (chain chain' : (List (PeeledLayer π) × Bool) × Except CompileFailure (ChainEnd π)) :
    Prop where
  wrap : ∀ core, Chain.wrap chain.1.1 core = Chain.wrap chain'.1.1 core
  isOptional : chain.1.2 = chain'.1.2
  stop : Concur (EndsAlike nodes) chain.2 chain'.2

variable {registry : Registry π} {child : Node π → Fresh NodeSchema}

/-- Plans that go the same way come to related values, if related parts compile to the same. -/
theorem carryOut_congr {α α' : Type} {related : α → α' → Prop} {plan : Plan π α}
    {plan' : Plan π α'} (same : ∀ n n', nodes n n' → ∀ supply supply', (child n supply).1 =
      (child n' supply').1) (h : Plan.Alike nodes related plan plan') (supply supply' : Nat) :
    Concur related (carryOut child plan supply).1 (carryOut child plan' supply').1 := by
  induction h generalizing supply supply' with
  | done h => exact .given h
  | @ask _ _ _ _ answer answer' _ _ answers _ ih =>
    have both := answers supply supply'
    rcases given : answer supply with ⟨r, later⟩
    rcases given' : answer' supply' with ⟨r', later'⟩
    rw [given, given'] at both
    cases both with
    | failed e e' =>
      rw [carryOut_ask_of_error child _ given, carryOut_ask_of_error child _ given']
      exact .failed _ _
    | given h =>
      rw [carryOut_ask_of_ok child _ given, carryOut_ask_of_ok child _ given']
      exact ih _ _ h later later'
  | @compile _ part part' _ _ parts _ ih =>
    rw [carryOut_compile, carryOut_compile, same part part' parts supply supply']
    exact ih _ _ _

/-- The chains of nodes that are seen alike are alike. -/
theorem peel_congr (respects : registry.Respects nodes) (room : Nat)
    (h : Adapter.Alike nodes adapter adapter' n n') (supply supply' : Nat) :
    ChainsAlike nodes (peel registry room n adapter supply).1
      (peel registry room n' adapter' supply').1 := by
  induction room generalizing n n' adapter adapter' supply supply' with
  | zero =>
    cases wrapped : adapter.modifier? n with
    | none =>
      rw [peel_of_plain _ _ wrapped, peel_of_plain _ _ (h.modifier ▸ wrapped)]
      exact ⟨fun _ => rfl, rfl, .given (.base none h)⟩
    | some modifier =>
      rw [peel_zero _ wrapped, peel_zero _ (h.modifier ▸ wrapped)]
      exact ⟨fun _ => rfl, rfl, .failed _ _⟩
  | succ room ih =>
    cases wrapped : adapter.modifier? n with
    | none =>
      rw [peel_of_plain _ _ wrapped, peel_of_plain _ _ (h.modifier ▸ wrapped)]
      exact ⟨fun _ => rfl, rfl, .given (.base none h)⟩
    | some modifier =>
      have wrapped' : adapter'.modifier? n' = some modifier := h.modifier ▸ wrapped
      have both := h.inner supply supply'
      rcases given : adapter.inner n supply with ⟨r, later⟩
      rcases given' : adapter'.inner n' supply' with ⟨r', later'⟩
      rw [given, given'] at both
      cases both with
      | failed e e' =>
        rw [peel_of_error _ _ wrapped given, peel_of_error _ _ wrapped' given']
        exact ⟨fun _ => rfl, rfl, .failed _ _⟩
      | given related =>
        cases related with
        | none =>
          rw [peel_of_hollow _ _ wrapped given, peel_of_hollow _ _ wrapped' given']
          exact ⟨fun _ => rfl, rfl, .given (.base _ h)⟩
        | @some inner inner' related =>
          have inside := respects inner inner' related
          cases claims : (registry.resolve inner).value with
          | none =>
            cases claims' : (registry.resolve inner').value with
            | none =>
              rw [peel_of_unclaimed _ _ wrapped given claims,
                peel_of_unclaimed _ _ wrapped' given' claims']
              exact ⟨fun core => Assembly.addLayer_congr h core _, rfl, .given .unclaimed⟩
            | some => rw [claims, claims'] at inside; cases inside
          | some next =>
            cases claims' : (registry.resolve inner').value with
            | none => rw [claims, claims'] at inside; cases inside
            | some next' =>
              rw [claims, claims'] at inside
              obtain ⟨alike⟩ := inside
              have rest := ih alike later later'
              rw [peel_of_layer _ _ wrapped given claims rfl,
                peel_of_layer _ _ wrapped' given' claims' rfl]
              refine ⟨fun core => ?_, ?_, rest.stop⟩
              · change (Chain.wrap _ core).addLayer _ _ _ = (Chain.wrap _ core).addLayer _ _ _
                rw [rest.wrap core]
                exact Assembly.addLayer_congr h _ _
              · change (_ || _) = (_ || _)
                rw [rest.isOptional]

/-- Structures that are seen alike are put together in the same way, or fail both. -/
theorem structured_congr (options : DocumentOptions) (same : ∀ n n', nodes n n' →
      ∀ supply supply', (child n supply).1 = (child n' supply').1)
    (h : Adapter.Alike nodes adapter adapter' n n') (supply supply' : Nat) :
    Concur Eq (structured options child n adapter supply).1
      (structured options child n' adapter' supply').1 := by
  rw [structured, structured, ← h.shape]
  cases adapter.shape? n with
  | none => exact .given rfl
  | some shape => exact carryOut_congr same (Structure.ofShape_alike options h shape) supply supply'

/-- Nodes that are seen alike are compiled to the same schema. -/
theorem claimed_congr {context : CompileContext π} (respects : context.registry.Respects nodes)
    (same : ∀ n n', nodes n n' → ∀ supply supply', (child n supply).1 = (child n' supply').1)
    (h : Adapter.Alike nodes adapter adapter' n n') (supply supply' : Nat) :
    (claimed context child n adapter supply).1 = (claimed context child n' adapter' supply').1 := by
  have chains := peel_congr respects context.options.maxDepth h supply supply'
  rcases peeled : peel context.registry context.options.maxDepth n adapter supply with
    ⟨⟨⟨layers, isOptional⟩, stop⟩, later⟩
  rcases peeled' : peel context.registry context.options.maxDepth n' adapter' supply' with
    ⟨⟨⟨layers', isOptional'⟩, stop'⟩, later'⟩
  rw [peeled, peeled'] at chains
  obtain ⟨wrap, sameFlag, ends⟩ := chains
  obtain rfl : isOptional = isOptional' := sameFlag
  cases ends with
  | failed e e' =>
    rw [claimed_of_error child context peeled rfl, claimed_of_error child context peeled' rfl]
  | given ends =>
    cases ends with
    | unclaimed =>
      rw [claimed_of_ok child context peeled rfl, claimed_of_ok child context peeled' rfl]
      dsimp only
      rw [wrap]
    | @base base base' baseAdapter baseAdapter' modifier alike =>
      have both := structured_congr context.options same alike later later'
      rcases runs : structured context.options child base baseAdapter later with ⟨r, last⟩
      rcases runs' : structured context.options child base' baseAdapter' later' with ⟨r', last'⟩
      rw [runs, runs'] at both
      cases both with
      | failed e e' =>
        rw [claimed_of_error child context peeled (finish_of_error child _ _ _ runs),
          claimed_of_error child context peeled' (finish_of_error child _ _ _ runs')]
      | given sameAssembly =>
        subst sameAssembly
        rw [claimed_of_ok child context peeled (finish_of_ok child _ _ _ runs),
          claimed_of_ok child context peeled' (finish_of_ok child _ _ _ runs')]
        dsimp only
        rw [wrap, Assembly.addLayer_congr alike]

/-- Nodes of the same unfolding are compiled plainly to the same schema. -/
theorem node_congr {context : CompileContext π} (respects : context.registry.Respects nodes)
    (levels : Nat) (related : nodes n n') (supply supply' : Nat) :
    (node context levels n supply).1 = (node context levels n' supply').1 := by
  induction levels generalizing n n' supply supply' with
  | zero => rfl
  | succ levels ih =>
    have both := respects n n' related
    rw [node, node]
    cases claims : (context.registry.resolve n).value with
    | none =>
      cases claims' : (context.registry.resolve n').value with
      | none => rfl
      | some => rw [claims, claims'] at both; cases both
    | some adapter =>
      cases claims' : (context.registry.resolve n').value with
      | none => rw [claims, claims'] at both; cases both
      | some adapter' =>
        rw [claims, claims'] at both
        obtain ⟨alike⟩ := both
        exact claimed_congr respects (fun _ _ h => ih h) alike supply supply'

end Plain

end SchemaBridge
