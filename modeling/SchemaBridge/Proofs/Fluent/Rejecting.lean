import SchemaBridge.Proofs.Compile.Completion
import SchemaBridge.Proofs.Fluent.Accepting
import SchemaBridge.Proofs.Fluent.Settling

/-!
# Documents reject what the validator rejects

The converse of the agreement between documents and the fluent validator, for acyclic schemas whose
documents state every condition on the data. No node is referred to, so that every answer of the run
is put together from the answers for its parts; and by induction on the depth to which a schema is
nested, the validator comes to an end at a node without an issue, and with the data as output, if
the schema of the node accepts the data.

## Main definitions

* `Fluent.Nests` : how deep a schema is nested.
* `Fluent.Mirrorable` : what is asked of a schema and of the run that compiles it.

## Main results

* `Fluent.absence_of_unwraps` : what becomes of an absent entry, by the layers of its node.
* `Fluent.Mirrorable.settlesWithin_succ` : one layer more.
* `Fluent.parsed_of_documentAccepts` : the validator parses what the document accepts.
-/

namespace SchemaBridge.Fluent

open Draft07 Chain Compile Registry

variable {γ : Type}

/-! ### Schemas of which documents state everything -/

/-- At most this many layers of a schema stand in each other. -/
def Nests (scope : Scope γ) : Nat → Schema γ → Prop
  | 0, _ => False
  | room + 1, node => ∀ inner, Below scope node inner → Nests scope room inner

/-- A fluent node without constraints, of a kind of which documents state every condition. -/
def Mirrored (scope : Scope γ) (node : Schema γ) : Prop :=
  ∃ layer, node.payload = .fluent layer ∧ layer.details.constraints = .empty ∧
    layer.kind.Mirrored scope

/-- An acyclic schema, and a run that compiles it, that the validator can be compared with. -/
structure Mirrorable (scope : Scope γ) (policy : ClaimPolicy) (options : DocumentOptions)
    (root : Schema γ) (supply : Nat) : Prop where
  mirrored : ∀ node, Reaches scope root node → Mirrored scope node
  /-- Nothing stands below itself. -/
  loopless : ∀ a b, Reaches scope root a → Relation.TransGen (Below scope) a b → b.id ≠ a.id
  /-- The validator reaches no limit. -/
  nests : Nests scope (Walk.nestingLimit + 1) root
  /-- The run reaches neither the depth limit nor the chain limit. -/
  unlimited : ∀ event ∈ ((standard scope policy).compile options root supply).1.events,
    event.reachesLimit = false

variable {scope : Scope γ} {policy : ClaimPolicy} {node inner : Schema γ}

theorem Mirrored.claims (h : Mirrored scope node) :
    ((standard scope policy).resolve node).value = some (adapter scope) := by
  obtain ⟨layer, seen, -⟩ := h
  rw [resolve_standard, seen]

theorem Mirrored.plain (h : Mirrored scope node) : node.payload.description? = none := by
  obtain ⟨layer, seen, -⟩ := h
  rw [seen]
  rfl

/-- A mirrored node changes nothing. -/
theorem Mirrored.ordinary (h : Mirrored scope node) {layer : Layer γ}
    (seen : node.payload = .fluent layer) : layer.kind.isOrdinary = true ∧
      ∀ part apply, layer.kind ≠ .transformed part apply := by
  obtain ⟨⟨kind, details⟩, seen', -, mirrored⟩ := h
  obtain rfl := Payload.fluent.inj (seen'.symm.trans seen)
  cases kind <;> first | (cases mirrored; done) | exact ⟨rfl, by simp⟩

/-- A slot of a mirrored node is defined. -/
theorem Mirrored.target (h : Mirrored scope node) {layer : Layer γ} {target : Deferred γ}
    (seen : node.payload = .fluent layer) (isDeferred : layer.kind = .deferred target) :
    ∃ inner, ∀ supply, scope.target target supply = (.ok inner, supply) := by
  obtain ⟨layer', seen', -, mirrored⟩ := h
  obtain rfl := Payload.fluent.inj (seen'.symm.trans seen)
  rw [isDeferred] at mirrored
  cases target with
  | slot name =>
    obtain ⟨inner, defined⟩ := mirrored
    refine ⟨inner, fun supply => ?_⟩
    rw [Scope.target, defined]
    rfl
  | getter => cases mirrored

/-- All questions about a mirrored node are answered. -/
theorem Mirrored.sure (h : Mirrored scope node) : (adapter scope).Sure node := by
  have target := fun layer target => @Mirrored.target γ scope node h layer target
  obtain ⟨⟨kind, details⟩, seen, -⟩ := h
  constructor
  case inner =>
    intro supply
    cases isModifier : kind.predicate with
    | modifier modifier =>
      rcases inner_adapter scope seen isModifier with
        ⟨part, -, always⟩ | ⟨deferred, isDeferred, always⟩
      · exact ⟨_, _, always supply⟩
      · obtain ⟨inner, given⟩ := target _ _ seen isDeferred
        exact ⟨some inner, supply, by rw [always, given]; rfl⟩
    | shape =>
      obtain ⟨id, typeName, payload⟩ := node
      dsimp only at seen
      subst seen
      cases kind <;> first | exact ⟨_, _, rfl⟩ | cases isModifier
  all_goals
    obtain ⟨id, typeName, payload⟩ := node
    dsimp only at seen
    subst seen
    intro supply
    cases kind <;> exact ⟨_, _, rfl⟩

/-- The node inside a mirrored modifier is there. -/
theorem Mirrored.not_hollow (h : Mirrored scope node) {modifier : Modifier}
    (wrapped : (adapter scope).modifier? node = some modifier) :
    ¬ Answer.Gives ((adapter scope).inner node) none := by
  rintro ⟨supply, gives⟩
  obtain ⟨layer, seen, -⟩ := id h
  rcases inner_adapter scope seen ((modifier?_eq_some_iff seen).1 wrapped) with
    ⟨part, -, always⟩ | ⟨target, isDeferred, always⟩
  · rw [always] at gives
    cases gives
  · obtain ⟨inner, given⟩ := h.target seen isDeferred
    rw [always, given] at gives
    cases gives

/-! ### Absent entries -/

/-- What the validator finds inside a deferred layer of a mirrored node is what its adapter
gives. -/
theorem Mirrored.targetOf (h : Mirrored scope node) {layer : Layer γ} {target : Deferred γ}
    (seen : node.payload = .fluent layer) (isDeferred : layer.kind = .deferred target)
    (gives : Answer.Gives (scope.target target) inner) :
    Walk.targetOf scope target = .ok inner := by
  obtain ⟨other, given⟩ := h.target seen isDeferred
  obtain ⟨supply, gives⟩ := gives
  rw [given] at gives
  obtain rfl := Except.ok.inj gives
  exact congrArg Prod.fst (given 0)

/-- What becomes of an absent entry is said by an optional layer, and otherwise inside. -/
theorem absence_modifier (mirrored : Mirrored scope node) {modifier : Modifier}
    (wrapped : (adapter scope).modifier? node = some modifier)
    (gives : Answer.Gives ((adapter scope).inner node) (some inner)) (room : Nat) :
    Walk.absence scope (room + 1) node =
      if modifier = .optional then .ok .skip else Walk.absence scope room inner := by
  obtain ⟨layer, seen, -, kindMirrored⟩ := id mirrored
  have isModifier := (modifier?_eq_some_iff seen).1 wrapped
  rw [Walk.absence, fluent?_eq_some_iff.2 seen]
  dsimp only
  rcases inside_cases seen isModifier gives with nodes | ⟨target, isDeferred, gives⟩
  · cases kind : layer.kind with
    | optional | nullable | branded =>
      rw [kind] at isModifier nodes
      obtain rfl := TypePredicate.modifier.inj isModifier
      obtain rfl := List.singleton_injective nodes
      rfl
    | defaulted | caught | refined | transformed =>
      rw [kind] at kindMirrored
      cases kindMirrored
    | deferred =>
      rw [kind] at nodes
      cases nodes
    | _ =>
      rw [kind] at isModifier
      cases isModifier
  · have given := mirrored.targetOf seen isDeferred gives
    rw [isDeferred] at isModifier ⊢
    obtain rfl := TypePredicate.modifier.inj isModifier
    dsimp only
    rw [given]
    rfl

/-- The validator knows what becomes of an absent entry, and leaves it out if some layer of its node
is optional. -/
theorem absence_of_unwraps {layers : List (PeeledLayer (Payload γ))} {isOptional : Bool}
    {stop : ChainEnd (Payload γ)}
    (mirrored : ∀ other, Reaches scope node other → Mirrored scope other)
    (unwraps : Unwraps (standard scope policy) node (adapter scope) layers isOptional (.ok stop))
    (notReentered : ∀ other, stop ≠ .reentered other) {depth room : Nat}
    (nests : Nests scope depth node) (le : depth ≤ room) :
    ∃ a, Walk.absence scope room node = .ok a ∧ (isOptional = true → a = .skip) := by
  generalize isAdapter : adapter scope = adapter', ending : Except.ok stop = last at unwraps
  induction unwraps generalizing depth room with
  | base bare =>
    subst isAdapter
    obtain ⟨layer, seen, -, kindMirrored⟩ := mirrored _ .refl
    obtain ⟨shape, isShape⟩ := (modifier?_eq_none_iff seen).1 bare
    obtain _ | depth := depth
    · cases nests
    obtain _ | room := room
    · cases le
    refine ⟨.missing, ?_, nofun⟩
    rw [Walk.absence, fluent?_eq_some_iff.2 seen]
    obtain ⟨kind, details⟩ := layer
    cases kind <;> first | rfl | (cases isShape; done) | cases kindMirrored
  | endless | failed => cases ending
  | hollow wrapped gives =>
    subst isAdapter
    exact absurd gives ((mirrored _ .refl).not_hollow wrapped)
  | reentered => 
    obtain rfl := Except.ok.inj ending
    exact absurd rfl (notReentered _)
  | unclaimed wrapped gives nobody =>
    subst isAdapter
    obtain ⟨layer, seen, -⟩ := mirrored _ .refl
    have below := below_of_inner seen ((modifier?_eq_some_iff seen).1 wrapped) gives
    rw [(mirrored _ (.single below)).claims] at nobody
    cases nobody
  | @layer node inner _ next modifier layers isOptional _ wrapped gives claimed _ ih =>
    subst isAdapter
    obtain ⟨layer, seen, -⟩ := mirrored _ .refl
    have below := below_of_inner seen ((modifier?_eq_some_iff seen).1 wrapped) gives
    rw [(mirrored _ (.single below)).claims] at claimed
    obtain _ | depth := depth
    · cases nests
    obtain _ | room := room
    · cases le
    rw [absence_modifier (mirrored _ .refl) wrapped gives]
    by_cases optional : modifier = .optional
    · rw [if_pos optional]
      exact ⟨.skip, rfl, fun _ => rfl⟩
    · rw [if_neg optional, decide_eq_false optional, Bool.false_or]
      exact ih (fun other reaches => mirrored other (.head below reaches)) (nests _ below)
        (Nat.le_of_succ_le_succ le) (Option.some.inj claimed) ending

/-! ### Validation step by step -/

/-- A modifier settles as the node inside does, and on `null` if it admits that. -/
theorem settles_modifier (mirrored : Mirrored scope node) {layer : Layer γ}
    (seen : node.payload = .fluent layer) {modifier : Modifier}
    (isModifier : layer.kind.predicate = .modifier modifier)
    (gives : Answer.Gives ((adapter scope).inner node) (some inner))
    {check : Schema γ → Json → WalkM Json} {sound : Prop} {data : Json}
    (h : Walk.Settles (check inner data) sound (· = data)) :
    Walk.Settles (Walk.kind scope check layer.kind data)
      (some modifier = some .nullable ∧ data = .null ∨ sound) (· = data) := by
  have plainly (plain : modifier ≠ .nullable) : Walk.Settles (check inner data)
      (some modifier = some .nullable ∧ data = .null ∨ sound) (· = data) :=
    h.of_imp fun isSound => isSound.resolve_left fun null => plain (Option.some.inj null.1)
  rcases inside_cases seen isModifier gives with nodes | ⟨target, isDeferred, gives⟩
  · cases kind : layer.kind with
    | optional | branded =>
      rw [kind] at isModifier nodes
      obtain rfl := TypePredicate.modifier.inj isModifier
      obtain rfl := List.singleton_injective nodes
      exact plainly (by decide)
    | nullable part =>
      rw [kind] at nodes
      obtain rfl := List.singleton_injective nodes
      cases data with
      | null => exact Walk.settles_pure fun _ => rfl
      | bool | number | string | array | object =>
        exact h.of_imp fun isSound => isSound.resolve_left fun null => by cases null.2
    | defaulted | caught | refined | transformed =>
      obtain ⟨layer', seen', -, kindMirrored⟩ := mirrored
      obtain rfl := Payload.fluent.inj (seen'.symm.trans seen)
      rw [kind] at kindMirrored
      cases kindMirrored
    | deferred =>
      rw [kind] at nodes
      cases nodes
    | _ =>
      rw [kind] at isModifier
      cases isModifier
  · have given := mirrored.targetOf seen isDeferred gives
    rw [isDeferred] at isModifier ⊢
    obtain rfl := TypePredicate.modifier.inj isModifier
    rw [Walk.kind, given]
    exact plainly (by decide)

/-! ### The induction -/

section Run

open Call

variable {options : DocumentOptions} {root : Schema γ} {supply : Nat}
  {targets : Targets}

/-- A schema that is nested to this depth settles on what the schema that stands at its node in the
run accepts. -/
def SettlesWithin (scope : Scope γ) (policy : ClaimPolicy) (options : DocumentOptions)
    (root : Schema γ) (supply : Nat) (targets : Targets) (room : Nat) : Prop :=
  ∀ call, InRun scope policy options root supply call →
    ∀ node layers isOptional stop core, Reaches scope root node → Nests scope room node →
      Unwraps (standard scope policy) node (adapter scope) layers isOptional (.ok stop) →
      AtEnd (compilation scope policy options) [] (Enters (compilation scope policy options) call)
        (Hands (compilation scope policy options) call) stop core →
      (wrap layers core).constraints = .empty ∧ ∀ data : Json, data.WellFormed →
        Walk.Settles (Walk.node scope room node data)
          (Accepts targets (wrap layers core).schema data) (· = data)

variable (h : Mirrorable scope policy options root supply)
include h

namespace Mirrorable

theorem plain (node : Schema γ) (reaches : Reaches scope root node) :
    node.payload.description? = none := (h.mirrored node reaches).plain

/-- No walk comes back to a node. -/
theorem not_reenters (id : Identity) : ¬ Reenters (standard scope policy) root id := by
  rintro ⟨path, again, starts, walk, -, repeated, -⟩
  obtain ⟨node, mem, same⟩ := List.mem_map.1 repeated
  have reaches : Reaches scope root node :=
    reaches_of_leads h.plain (reached_of_isChain walk starts (List.mem_append_left _ mem))
  have plainBelow (other : Schema γ) (further : Reaches scope node other) :
      other.payload.description? = none := h.plain other (reaches.trans further)
  obtain ⟨before, beyond, rfl⟩ := List.append_of_mem mem
  rw [List.append_assoc, List.cons_append] at walk
  obtain ⟨next, isNext, leads⟩ := exists_leads_of_walk walk.right_of_append
  have rest := (List.isChain_cons.1 walk.right_of_append).2
  have below := below_of_leads (h.plain node reaches) leads
  have further : Reaches scope next again :=
    reaches_of_leads (fun other further => plainBelow other (.head below further))
      (reached_of_isChain rest isNext (List.mem_append_right _ (List.mem_singleton_self _)))
  exact h.loopless node again reaches (.head' below further) same.symm

/-- No node of an acyclic schema gets a name. -/
theorem unnamed : (finalBooks scope policy options root supply).names = [] := by
  have start :=
    trusted_start (compilation scope policy options) (rootCall options root supply) supply
  refine List.eq_nil_iff_forall_not_mem.2 fun ⟨id, name⟩ mem => ?_
  obtain ⟨named, isNamed⟩ := Option.isSome_iff_exists.1
    ((Table.has_iff_mem_keys _ id).2 (List.mem_map_of_mem (f := Prod.fst) mem))
  have accounts := @Call.accounts (Payload γ) (compilation scope policy options) _
    (rootCall options root supply) .refl start
  rcases accounts id named isNamed with old | ⟨inner, within, meets⟩
  · cases old
  · obtain ⟨path, follows⟩ := within.follows rfl start
    exact h.not_reenters id (meets.reenters follows)

theorem notLimited : ¬ (finalBooks scope policy options root supply).Limited :=
  (standard scope policy).not_limited options root supply h.unlimited

/-- Every call of the run on a node of the schema completes. -/
theorem completes {call : Call (Payload γ)} (within : InRun scope policy options root supply call)
    (reaches : Reaches scope root call.node) :
    Completes (compilation scope policy options) call := by
  refine within.completes (trusted_start _ _ supply) h.unnamed h.notLimited ?_
  intro other leads adapter claims
  have reaches' := reaches.trans
    (reaches_of_leads (fun other further => h.plain other (reaches.trans further)) leads)
  rw [(h.mirrored other reaches').claims] at claims
  obtain rfl := Option.some.inj claims
  exact (h.mirrored other reaches').sure

/-- Nothing that is reached changes data. -/
theorem unchanging {node : Schema γ} (reaches : Reaches scope root node) :
    Unchanging scope node where
  ordinary := fun other further _ seen =>
    ((h.mirrored other (reaches.trans further)).ordinary (fluent?_eq_some_iff.1 seen)).1
  untransformed := fun other further _ seen =>
    ((h.mirrored other (reaches.trans further)).ordinary (fluent?_eq_some_iff.1 seen)).2

/-- The node of a call settles on what the answer accepts, and the validator leaves an absent entry
out where the answer is optional. -/
theorem settles_answer {room : Nat}
    (settles : SettlesWithin scope policy options root supply targets room)
    {call : Call (Payload γ)}
    (within : InRun scope policy options root supply call) (reaches : Reaches scope root call.node)
    (nests : Nests scope room call.node) :
    (∀ data : Json, data.WellFormed → Walk.Settles (Walk.node scope room call.node data)
      (Accepts targets (call.answer (compilation scope policy options)).schema data) (· = data)) ∧
      ∀ limit, room ≤ limit → ∃ a, Walk.absence scope limit call.node = .ok a ∧
        ((call.answer (compilation scope policy options)).isOptional = true → a = .skip) := by
  have mirrored := h.mirrored call.node reaches
  cases h.completes within reaches with
  | unclaimed nobody =>
    rw [mirrored.claims] at nobody
    cases nobody
  | whole claims unwraps atEnd answers =>
    rw [mirrored.claims] at claims
    obtain rfl := Option.some.inj claims
    rw [answers]
    refine ⟨(settles call within _ _ _ _ _ reaches nests unwraps atEnd).2, fun limit le => ?_⟩
    refine absence_of_unwraps (fun other further =>
      h.mirrored other (reaches.trans further)) unwraps
      ?_ nests le
    rintro other rfl
    cases atEnd with
    | reentered _ named => cases named

/-- The validator leaves an absent part out where an answer for the part is optional. -/
theorem absence_of_hands {room : Nat}
    (settles : SettlesWithin scope policy options root supply targets room)
    {call : Call (Payload γ)}
    (within : InRun scope policy options root supply call) {part : Schema γ}
    (reaches : Reaches scope root part) (nests : Nests scope room part)
    (small : room ≤ Walk.nestingLimit) {c : NodeSchema}
    (hands : Hands (compilation scope policy options) call part c) :
    ∃ a, Walk.absence scope Walk.nestingLimit part = .ok a ∧ (c.isOptional = true → a = .skip) := by
  obtain ⟨inner, spawns, rfl, rfl⟩ := hands
  exact (h.settles_answer settles (within.tail spawns) reaches nests).2 _ small

/-- A node without a modifier settles on what its structure accepts. -/
theorem settles_base {room : Nat}
    (settles : SettlesWithin scope policy options root supply targets room)
    {call : Call (Payload γ)} (within : InRun scope policy options root supply call)
    {node : Schema γ} (reaches : Reaches scope root node)
    (nests : ∀ inner, Below scope node inner → Nests scope room inner)
    (small : room ≤ Walk.nestingLimit) {layer : Layer γ} (seen : node.payload = .fluent layer)
    {shape : Shape} (isShape : layer.kind.predicate = .shape shape) {assembly : Assembly}
    (yields : Plan.Yields (Hands (compilation scope policy options) call)
      (Structure.ofShape options node (adapter scope) shape) assembly)
    {data : Json} (wellFormed : data.WellFormed) :
    Walk.Settles (Walk.kind scope (Walk.node scope room) layer.kind data)
      (Accepts targets assembly.body data) (· = data) := by
  obtain ⟨layer', seen', -, mirrored⟩ := h.mirrored node reaches
  obtain rfl := Payload.fluent.inj (seen'.symm.trans seen)
  have below {part : Schema γ} (mem : part ∈ layer'.kind.nodes) : Below scope node part :=
    .held (fluent?_eq_some_iff.2 seen) mem
  have unchanged (part : Schema γ) (mem : part ∈ layer'.kind.nodes) (value : Json) :
      Walk.Grants (Walk.node scope room part value) (· = value) :=
    (Walk.grants_node scope room part value).mono fun output passes =>
      passes.output_eq (h.unchanging (reaches.tail (below mem))).preserving
  cases isLeaf : layer'.kind.isLeaf with
  | true =>
    have leaf : Accepts targets assembly.body data → layer'.kind.Matches (fun _ _ => False)
        (fun _ => False) data := (accepts_leaf_iff isLeaf seen isShape yields _ _).1
    refine (Walk.settles_structure isShape mirrored wellFormed ?_ unchanged ?_).of_imp leaf
    all_goals
      rw [Kind.nodes_eq_nil isLeaf]
      exact nofun
  | false =>
    have composes := composes_of_yields isLeaf seen isShape yields
    have composed : Accepts targets assembly.body data → layer'.kind.Matches
        (fun part value => ∃ c, Hands (compilation scope policy options) call part c ∧
          Accepts targets c.schema value)
        (fun part => ∃ c, Hands (compilation scope policy options) call part c ∧
          c.isOptional = true) data :=
      composes.matches_of_accepts mirrored.not_keyed
        (fun part _ c hands d accepted => ⟨c, hands, accepted⟩)
        (fun part _ c hands isOptional => ⟨c, hands, isOptional⟩)
    refine (Walk.settles_structure isShape mirrored wellFormed ?_ unchanged ?_).of_imp composed
    · intro part mem value wellFormed
      refine .of_exists (composes.exists_compiles mem) ?_
      rintro _ ⟨inner, spawns, rfl, rfl⟩
      exact (h.settles_answer settles (within.tail spawns) (reaches.tail (below mem))
        (nests _ (below mem))).1 value wellFormed
    · intro part mem
      obtain ⟨c, hands⟩ := composes.exists_compiles mem
      obtain ⟨a, isAbsence, -⟩ := h.absence_of_hands settles within (reaches.tail (below mem))
        (nests _ (below mem)) small hands
      refine ⟨a, isAbsence, fun ⟨c', hands', isOptional⟩ => ?_⟩
      obtain ⟨a', isAbsence', skips⟩ := h.absence_of_hands settles within
        (reaches.tail (below mem)) (nests _ (below mem)) small hands'
      obtain rfl := Except.ok.inj (isAbsence.symm.trans isAbsence')
      exact skips isOptional

theorem settlesWithin_succ {room : Nat} (small : room ≤ Walk.nestingLimit)
    (settles : SettlesWithin scope policy options root supply targets room) :
    SettlesWithin scope policy options root supply targets (room + 1) := by
  intro call within node layers isOptional stop core reaches nests unwraps atEnd
  obtain ⟨layer, seen, free, -⟩ := h.mirrored node reaches
  have seen' := fluent?_eq_some_iff.2 seen
  have noConstraints : (adapter scope).constraints node = none := by
    have details : details? node = some layer.details := by
      rw [details?, seen']
      rfl
    change ((details? node).map (·.constraints)).filter (fun c => !c.isEmpty) = none
    rw [details, Option.map_some, free]
    rfl
  have mirroredBelow {inner : Schema γ} (below : Below scope node inner) : Mirrored scope inner :=
    h.mirrored inner (reaches.tail below)
  cases unwraps with
  | base bare =>
    obtain ⟨shape, isShape⟩ := (modifier?_eq_none_iff seen).1 bare
    cases atEnd with
    | shaped isShape' yields =>
      have isShape := (shape?_eq_some_iff seen).1 isShape'
      obtain ⟨body, bounds, rfl⟩ := Assembly.bare_of_yields yields
      refine ⟨Assembly.constraints_addLayer rfl noConstraints none, fun data wellFormed => ?_⟩
      refine Walk.settles_node seen' free ((h.settles_base settles within reaches nests small seen
        isShape yields wellFormed).of_imp fun accepted => ?_)
      have bare := ((Assembly.accepts_addLayer_iff rfl noConstraints none).1 accepted).resolve_left
        fun null => by cases null.1
      rwa [Assembly.schema_of_plain] at bare
    | shapeless unseen =>
      rw [(shape?_eq_some_iff seen).2 isShape] at unseen
      cases unseen
  | hollow wrapped gives => exact absurd gives ((h.mirrored node reaches).not_hollow wrapped)
  | reentered =>
    cases atEnd with
    | reentered _ named => cases named
  | unclaimed wrapped gives nobody =>
    have below := below_of_inner seen ((modifier?_eq_some_iff seen).1 wrapped) gives
    rw [(mirroredBelow below).claims] at nobody
    cases nobody
  | layer wrapped gives claimed rest =>
    have isModifier := (modifier?_eq_some_iff seen).1 wrapped
    have below := below_of_inner seen isModifier gives
    rw [(mirroredBelow below).claims] at claimed
    obtain rfl := Option.some.inj claimed
    obtain ⟨unconstrained, settled⟩ := settles call within _ _ _ _ core (reaches.tail below)
      (nests _ below) rest atEnd
    refine ⟨Assembly.constraints_addLayer unconstrained noConstraints _, fun data wellFormed => ?_⟩
    exact Walk.settles_node seen' free ((settles_modifier (h.mirrored node reaches) seen isModifier
      gives (settled data wellFormed)).of_imp
        (Assembly.accepts_addLayer_iff unconstrained noConstraints _).1)

theorem settlesWithin (room : Nat) (small : room ≤ Walk.nestingLimit + 1) :
    SettlesWithin scope policy options root supply targets room := by
  induction room with
  | zero =>
    intro call within node layers isOptional stop core reaches nests
    cases nests
  | succ room ih =>
    exact h.settlesWithin_succ (Nat.le_of_succ_le_succ small) (ih (Nat.le_of_succ_le small))

end Mirrorable

/-- The validator parses the data that the document of a schema accepts, and leaves it as it is. -/
theorem parsed_of_documentAccepts {data : Json} (wellFormed : data.WellFormed)
    (accepted :
      DocumentAccepts ((standard scope policy).compile options root supply).1.value data) :
    (validate scope root data).value = .ok (.parsed data) := by
  rw [value_compile, documentAccepts_iff options ((standard scope policy).schema_root options root
    supply (tidy_invariant _ _))] at accepted
  obtain ⟨settles, -⟩ := @Mirrorable.settles_answer γ scope policy options root supply _ h _
    (h.settlesWithin _ (Nat.le_refl _)) (rootCall options root supply) .refl .refl h.nests
  obtain ⟨output, t, runs, settled⟩ := settles data wellFormed Walk.start
  obtain ⟨clean, rfl⟩ := settled accepted
  have verdict : (validate scope root output).value = _ := value_validate runs
  rw [verdict, clean]
  rfl

end Run

/-! ### A box that may hold nothing -/

/-- A number, or `null`. -/
def content : Schema Empty := Call.plainNode 2 (.nullable (Call.plainNode 3 .number))

/-- A box: an object whose only entry is its content, by a slot. -/
def box : Schema Empty :=
  Call.plainNode 0 (.object [("content", Call.plainNode 1 (.deferred (.slot "content")))])

/-- The slot `content` stands for the content of a box. -/
def boxScope : Scope Empty := ⟨fun name => if name = "content" then some content else none, nofun⟩

/-- What is below the nodes of a box. -/
private theorem box_below {node inner : Schema Empty} (below : Below boxScope node inner) :
    (node = box → inner = Call.plainNode 1 (.deferred (.slot "content"))) ∧
      (node = Call.plainNode 1 (.deferred (.slot "content")) → inner = content) ∧
      (node = content → inner = Call.plainNode 3 .number) ∧ node ≠ Call.plainNode 3 .number := by
  cases below with
  | held seen mem =>
    refine ⟨?_, ?_, ?_, ?_⟩
    all_goals
      rintro rfl
      obtain rfl := Option.some.inj seen
      first | exact List.mem_singleton.1 mem | cases mem
  | deferred seen isDeferred gives =>
    refine ⟨?_, ?_, ?_, ?_⟩
    all_goals
      rintro rfl
      obtain rfl := Option.some.inj seen
      cases isDeferred
    obtain ⟨_, gives⟩ := gives
    exact (Except.ok.inj gives).symm

/-- The nodes of a box, and their identities. -/
private theorem box_nodes {node : Schema Empty} (reaches : Reaches boxScope box node) :
    node = box ∨ node = Call.plainNode 1 (.deferred (.slot "content")) ∨ node = content ∨
      node = Call.plainNode 3 .number := by
  induction reaches with
  | refl => exact .inl rfl
  | tail _ below ih =>
    obtain ⟨ofBox, ofSlot, ofContent, ofNumber⟩ := box_below below
    rcases ih with same | same | same | same
    · exact .inr (.inl (ofBox same))
    · exact .inr (.inr (.inl (ofSlot same)))
    · exact .inr (.inr (.inr (ofContent same)))
    · exact absurd same ofNumber

/-- Identities increase on the way down into a box. -/
private theorem box_increases {node inner : Schema Empty} (reaches : Reaches boxScope box node)
    (below : Below boxScope node inner) : node.id.index < inner.id.index := by
  obtain ⟨ofBox, ofSlot, ofContent, ofNumber⟩ := box_below below
  rcases box_nodes reaches with same | same | same | same
  · rw [same, ofBox same]
    decide
  · rw [same, ofSlot same]
    decide
  · rw [same, ofContent same]
    decide
  · exact absurd same ofNumber

private theorem box_mirrorable : Mirrorable boxScope .firstMatch {} box 4 where
  mirrored node reaches := by
    rcases box_nodes reaches with rfl | rfl | rfl | rfl
    · exact ⟨_, rfl, rfl, List.nodup_singleton _⟩
    · exact ⟨_, rfl, rfl, content, rfl⟩
    · exact ⟨_, rfl, rfl, trivial⟩
    · exact ⟨_, rfl, rfl, trivial⟩
  loopless a b reaches further := by
    have increases : a.id.index < b.id.index ∧ Reaches boxScope box b := by
      induction further with
      | single below => exact ⟨box_increases reaches below, reaches.tail below⟩
      | tail _ below ih =>
        exact ⟨Nat.lt_trans ih.1 (box_increases ih.2 below), ih.2.tail below⟩
    intro same
    rw [same] at increases
    exact Nat.lt_irrefl _ increases.1
  nests := by
    have ofNumber (room : Nat) : Nests boxScope (room + 1) (Call.plainNode 3 .number) :=
      fun inner below => absurd rfl (box_below below).2.2.2
    have ofContent (room : Nat) : Nests boxScope (room + 2) content := fun inner below => by
      rw [(box_below below).2.2.1 rfl]
      exact ofNumber room
    have ofSlot (room : Nat) :
        Nests boxScope (room + 3) (Call.plainNode 1 (.deferred (.slot "content"))) :=
      fun inner below => by
        rw [(box_below below).2.1 rfl]
        exact ofContent room
    have ofBox (room : Nat) : Nests boxScope (room + 4) box := fun inner below => by
      rw [(box_below below).1 rfl]
      exact ofSlot room
    exact ofBox 1021
  unlimited := by
    have reports : ((standard boxScope .firstMatch).compile {} box 4).1.events.map
        (·.reachesLimit) = [] := by decide +kernel
    rw [List.map_eq_nil_iff.1 reports]
    exact nofun

/-- The validator parses an empty box, which its document accepts. -/
theorem box_parses_null :
    DocumentAccepts ((standard boxScope .firstMatch).compile {} box 4).1.value
        (.object [("content", .null)]) ∧
      (validate boxScope box (.object [("content", .null)])).value =
        .ok (.parsed (.object [("content", .null)])) := by
  have wellFormed : (Json.object [("content", .null)]).WellFormed := by
    simp [Json.WellFormed, Json.WellFormedFields]
  have accepted : DocumentAccepts ((standard boxScope .firstMatch).compile {} box 4).1.value
      (.object [("content", .null)]) := by
    rw [value_compile, documentAccepts_iff {} ((standard boxScope .firstMatch).schema_root {} box 4
      (tidy_invariant _ _))]
    have root : ((rootCall {} box 4).answer ⟨standard boxScope .firstMatch, {}⟩).schema =
        Structure.object
          [("content", ⟨Assembly.orNull (Structure.typed "number"), false, .value⟩)] := by
      rfl
    rw [root, accepts_object]
    refine ⟨_, rfl, fun entry isLast => ?_⟩
    obtain rfl := List.mem_singleton.1 isLast
    refine ⟨fun value found => ?_, fun _ => rfl⟩
    obtain rfl := Option.some.inj found
    dsimp only
    exact Assembly.accepts_orNull_null _
  exact ⟨accepted, parsed_of_documentAccepts box_mirrorable wellFormed accepted⟩

end SchemaBridge.Fluent
