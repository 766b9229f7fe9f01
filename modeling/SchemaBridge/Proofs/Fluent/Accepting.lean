import SchemaBridge.Proofs.Compile.Acceptance
import SchemaBridge.Proofs.Compile.PlainNames
import SchemaBridge.Proofs.Compile.Required
import SchemaBridge.Proofs.Fluent.Inside
import SchemaBridge.Proofs.Number.Exact

/-!
# Documents accept what the validator parses

The compiler and the fluent validator read the same layers, but the compiler merges the constraints
of all layers of a chain, and puts references where the validator goes round again. Data that the
validator parses is accepted by the document: by induction on the depth at which it is passed, along
the chain of each node and into the parts of its structure. A reference leads to the definition of a
node that the validator has come to at the same depth, so the depth decreases with every layer.

## Main definitions

* `Constraints.Fits` : constraints of a layer that are written as the validator reads them.
* `Fluent.Regular` : what is asked of a node.
* `Fluent.Comparable` : what is asked of a schema and of the run that compiles it.

## Main results

* `Fluent.Admits.keptBy` : constraints that the validator admits are kept as they are written.
* `Fluent.Comparable.takesWithin_succ` : one layer more.
* `Fluent.documentAccepts_of_parsed` : the document accepts what the validator parses.
-/

namespace SchemaBridge

open Draft07 Binary64

/-! ### Constraints of one layer -/

/-- The bounds of a layer are finite, its lengths are doubles exactly, and it does not set a bound
beside a length of the same direction, of which the validator would only look at the bound. -/
structure Constraints.Fits (c : Constraints) : Prop where
  min : ∀ bound ∈ c.min, bound.isFinite = true
  max : ∀ bound ∈ c.max, bound.isFinite = true
  minLength : ∀ length ∈ c.minLength, length ≤ twoTo 53
  maxLength : ∀ length ∈ c.maxLength, length ≤ twoTo 53
  oneLower : c.min = none ∨ c.minLength = none
  oneUpper : c.max = none ∨ c.maxLength = none

namespace Json

variable {data : Json}

theorem Exact.size (h : data.Exact) {n : Nat} (size : size? data = some n) : n ≤ twoTo 53 := by
  cases data with
  | string | array | object =>
    obtain rfl := Option.some.inj size
    rw [Exact] at h
    first | exact h | exact h.1
  | null | bool | number => cases size

end Json

namespace Fluent

variable {data : Json} {c : Constraints}

/-- Bounds on the size of a value that are admitted. -/
private theorem sized {count : Nat} (size : size? data = some count) (h : Admits c data) :
    (∀ bound ∈ c.min.or (c.minLength.map .ofNat), (Binary64.ofNat count).lt bound = false) ∧
      ∀ bound ∈ c.max.or (c.maxLength.map .ofNat), bound.lt (Binary64.ofNat count) = false := by
  cases data with
  | string | array | object =>
    obtain rfl := Option.some.inj size
    exact h _ _ rfl
  | null | bool | number => cases size

/-- A magnitude is the number itself or a size. -/
private theorem magnitude?_cases {n : Number} (h : magnitude? data = some n) :
    data = .number n ∨ ∃ count : Nat, size? data = some count ∧ n = .integer count := by
  cases data with
  | number m =>
    obtain rfl := Option.some.inj h
    exact .inl rfl
  | string | array | object =>
    obtain rfl := Option.some.inj h
    exact .inr ⟨_, rfl, rfl⟩
  | null | bool => cases h

/-- Constraints that the validator admits are kept as they are written. -/
theorem Admits.keptBy (h : Admits c data) (fits : c.Fits) (exact : data.Exact) : c.KeptBy data where
  min x set n measured := by
    rcases magnitude?_cases measured with rfl | ⟨count, size, rfl⟩
    · rw [Json.Exact] at exact
      exact exact.ge_of_not_lt (fits.min x set) (h.1 x set)
    · have isExact : (Number.integer count).IsExact := exact.size size
      refine isExact.ge_of_not_lt (fits.min x set) ?_
      rw [Number.toBinary64, ofInt_natCast]
      exact (sized size h).1 x (Option.or_eq_some_iff.2 (.inl set))
  max x set n measured := by
    rcases magnitude?_cases measured with rfl | ⟨count, size, rfl⟩
    · rw [Json.Exact] at exact
      exact exact.le_of_not_lt (fits.max x set) (h.2 x set)
    · have isExact : (Number.integer count).IsExact := exact.size size
      refine isExact.le_of_not_lt (fits.max x set) ?_
      rw [Number.toBinary64, ofInt_natCast]
      exact (sized size h).2 x (Option.or_eq_some_iff.2 (.inl set))
  minLength length set n size := by
    have none : c.min = none := fits.oneLower.resolve_right fun none => by
      rw [none] at set
      cases set
    refine (Number.le_iff_not_lt_ofNat (fits.minLength length set) (exact.size size)).2 ?_
    refine (sized size h).1 _ (Option.or_eq_some_iff.2 (.inr ⟨none, ?_⟩))
    exact Option.map_eq_some_iff.2 ⟨length, set, rfl⟩
  maxLength length set n size := by
    have none : c.max = none := fits.oneUpper.resolve_right fun none => by
      rw [none] at set
      cases set
    refine (Number.le_iff_not_lt_ofNat (exact.size size) (fits.maxLength length set)).2 ?_
    refine (sized size h).2 _ (Option.or_eq_some_iff.2 (.inr ⟨none, ?_⟩))
    exact Option.map_eq_some_iff.2 ⟨length, set, rfl⟩

/-! ### Schemas and runs that can be compared -/

variable {γ : Type}

/-- What is asked of every node of a schema: it is no description, its kind neither puts a value in
nor stands for an absent one, its constraints fit, and no member of a set is transformed. -/
structure Regular (scope : Scope γ) (node : Schema γ) : Prop where
  plain : node.payload.description? = none
  ordinary : ∀ layer, node.payload = .fluent layer → layer.kind.isOrdinary = true
  literal : ∀ layer, node.payload = .fluent layer → layer.kind.LiteralWellFormed
  fits : ∀ layer, node.payload = .fluent layer → layer.details.constraints.Fits
  members : ∀ layer, node.payload = .fluent layer → ∀ element, layer.kind = .set element →
    ∀ inner, Reaches scope element inner → ∀ other, inner.payload = .fluent other →
      ∀ part apply, other.kind ≠ .transformed part apply

/-- The compilation of a schema with the registry of the vendors. -/
abbrev compilation (scope : Scope γ) (policy : ClaimPolicy) (options : DocumentOptions) :
    CompileContext (Payload γ) :=
  ⟨Registry.standard scope policy, options⟩

/-- A call of the run that compiles a schema. -/
abbrev InRun (scope : Scope γ) (policy : ClaimPolicy) (options : DocumentOptions) (root : Schema γ)
    (supply : Nat) (call : Call (Payload γ)) : Prop :=
  Call.Within (compilation scope policy options) (Registry.rootCall options root supply) call

/-- The books at the end of that run. -/
abbrev finalBooks (scope : Scope γ) (policy : ClaimPolicy) (options : DocumentOptions)
    (root : Schema γ) (supply : Nat) : Ledger :=
  (Registry.standard scope policy).books options root supply

open Call Registry in
/-- A schema, and a run that compiles it, that the validator can be compared with. -/
structure Comparable (scope : Scope γ) (policy : ClaimPolicy) (options : DocumentOptions)
    (root : Schema γ) (supply : Nat) : Prop where
  regular : ∀ node, Reaches scope root node → Regular scope node
  /-- Getters build the same every time. -/
  steady : Alike scope root root
  /-- No two nodes that the run comes to have the same identity. -/
  identified : ∀ a b, InRun scope policy options root supply a →
    InRun scope policy options root supply b →
      ∀ m n, Enters (compilation scope policy options) a m →
        Enters (compilation scope policy options) b n → m.id = n.id → m = n
  /-- The run reaches neither the depth limit nor the chain limit. -/
  unlimited : ∀ event ∈ ((standard scope policy).compile options root supply).1.events,
    event.reachesLimit = false
  /-- No layer of a node that gets a name is optional. -/
  bare : ∀ call, InRun scope policy options root supply call →
    ∀ node, Enters (compilation scope policy options) call node →
      (∃ name, Table.get? (finalBooks scope policy options root supply).names node.id =
        some name) → ∀ s, ¬ Chain.HasOptional (standard scope policy) s node

section Run

variable {scope : Scope γ} {policy : ClaimPolicy} {options : DocumentOptions} {root : Schema γ}
  {supply : Nat}

/-- A node below a regular one is the node of nobody or a fluent node. -/
theorem Regular.layer {node : Schema γ} (regular : Regular scope node)
    {adapter : Adapter (Payload γ)}
    (claimed : ((Registry.standard scope policy).resolve node).value = some adapter) :
    adapter = Fluent.adapter scope ∧ ∃ layer, node.payload = .fluent layer :=
  Registry.exists_layer_of_claimed claimed regular.plain

/-- An entry that may be absent has an optional layer. -/
theorem hasOptional_of_skip {node : Schema γ} (steady : Alike scope node node)
    (regular : ∀ inner, Reaches scope node inner → Regular scope inner) {room : Nat}
    (skips : Walk.absence scope room node = .ok .skip) (s : Nat) :
    Chain.HasOptional (Registry.standard scope policy) s node := by
  induction room generalizing node s with
  | zero => cases skips
  | succ room ih =>
    cases seen : node.payload with
    | fluent layer =>
      have claims : ((Registry.standard scope policy).resolve node).value =
          some (Fluent.adapter scope) := by rw [Registry.resolve_standard, seen]
      have ordinary := (regular node .refl).ordinary layer seen
      cases isModifier : layer.kind.predicate with
      | shape => exact absurd skips (absence_ne_skip seen isModifier ordinary _)
      | modifier modifier =>
        have wrapped : (Fluent.adapter scope).modifier? node = some modifier :=
          (modifier?_eq_some_iff seen).2 isModifier
        obtain ⟨inner, next, gives⟩ := exists_inner_of_absence steady seen isModifier skips s
        have given : Answer.Gives ((Fluent.adapter scope).inner node) (some inner) :=
          ⟨s, by rw [gives]⟩
        have below := below_of_inner seen isModifier given
        rcases absence_inside steady seen isModifier ordinary given skips with rfl | skips
        · exact .here claims wrapped
        · exact .inside claims wrapped gives (ih (steady.of_below below)
            (fun other reaches => regular other (.head below reaches)) skips next)
    | description | scripted | foreign =>
      rw [Walk.absence, seen] at skips
      cases skips

/-- An entry that may be absent is found to be optional on the way along its layers, unless that way
is cut short at a node in progress that may be absent, or by the chain limit. -/
theorem isOptional_of_skip {node : Schema γ} {adapter : Adapter (Payload γ)}
    {layers : List (PeeledLayer (Payload γ))} {isOptional : Bool}
    {stop : Except CompileFailure (ChainEnd (Payload γ))} (steady : Alike scope node node)
    (regular : ∀ inner, Reaches scope node inner → Regular scope inner)
    (claimed : ((Registry.standard scope policy).resolve node).value = some adapter)
    (unwraps : Chain.Unwraps (Registry.standard scope policy) node adapter layers isOptional stop)
    {room : Nat} (skips : Walk.absence scope room node = .ok .skip) :
    isOptional = true ∨
      (∃ inner room, stop = .ok (.reentered inner) ∧ Reaches scope node inner ∧
        Walk.absence scope room inner = .ok .skip) ∨
      ∃ vendor, stop = .error (.endless vendor) := by
  obtain _ | room := room
  · cases skips
  induction unwraps generalizing room with
  | base bare =>
    obtain ⟨rfl, layer, seen⟩ := (regular _ .refl).layer claimed
    obtain ⟨shape, isShape⟩ := (modifier?_eq_none_iff seen).1 bare
    exact absurd skips (absence_ne_skip seen isShape ((regular _ .refl).ordinary layer seen) _)
  | endless => exact .inr (.inr ⟨_, rfl⟩)
  | failed wrapped fails =>
    obtain ⟨rfl, layer, seen⟩ := (regular _ .refl).layer claimed
    obtain ⟨s, fails⟩ := fails
    obtain ⟨part, next, gives⟩ := exists_inner_of_absence steady seen
      ((modifier?_eq_some_iff seen).1 wrapped) skips s
    rw [gives] at fails
    cases fails
  | hollow wrapped gives =>
    obtain ⟨rfl, layer, seen⟩ := (regular _ .refl).layer claimed
    obtain ⟨s, nothing⟩ := gives
    obtain ⟨part, next, gives⟩ := exists_inner_of_absence steady seen
      ((modifier?_eq_some_iff seen).1 wrapped) skips s
    rw [gives] at nothing
    cases nothing
  | reentered wrapped gives =>
    obtain ⟨rfl, layer, seen⟩ := (regular _ .refl).layer claimed
    have isModifier := (modifier?_eq_some_iff seen).1 wrapped
    rcases absence_inside steady seen isModifier ((regular _ .refl).ordinary layer seen) gives skips
      with rfl | skips
    · exact .inl rfl
    · exact .inr (.inl ⟨_, room, rfl, .single (below_of_inner seen isModifier gives), skips⟩)
  | unclaimed wrapped gives nobody =>
    obtain ⟨rfl, layer, seen⟩ := (regular _ .refl).layer claimed
    have isModifier := (modifier?_eq_some_iff seen).1 wrapped
    rcases absence_inside steady seen isModifier ((regular _ .refl).ordinary layer seen) gives skips
      with rfl | skips
    · exact .inl rfl
    · cases room with
      | zero => cases skips
      | succ room =>
        rw [Walk.absence, Registry.fluent?_of_unclaimed nobody] at skips
        cases skips
  | @layer node inner adapter next modifier layers isOptional stop wrapped gives claimed' _ ih =>
    obtain ⟨rfl, layer, seen⟩ := (regular _ .refl).layer claimed
    have isModifier := (modifier?_eq_some_iff seen).1 wrapped
    have below := below_of_inner seen isModifier gives
    rcases absence_inside steady seen isModifier ((regular _ .refl).ordinary layer seen) gives skips
      with rfl | skips
    · exact .inl rfl
    · cases room with
      | zero => cases skips
      | succ room =>
        rcases ih (steady.of_below below) (fun other reaches => regular other (.head below reaches))
          claimed' room skips with optional | ⟨last, room', atEnd, reaches, skips⟩ | cut
        · exact .inl (by rw [optional, Bool.or_true])
        · exact .inr (.inl ⟨last, room', atEnd, .head below reaches, skips⟩)
        · exact .inr (.inr cut)

/-! ### The induction -/

open Call Registry Chain Compile

/-- What a node passes at this depth is taken by the assembly that stands at the node in the run. -/
def TakesWithin (scope : Scope γ) (policy : ClaimPolicy) (options : DocumentOptions)
    (root : Schema γ) (supply room : Nat) : Prop :=
  ∀ call, InRun scope policy options root supply call →
    ∀ node adapter layers isOptional stop core, Reaches scope root node →
      ((standard scope policy).resolve node).value = some adapter →
      Unwraps (standard scope policy) node adapter layers isOptional (.ok stop) →
      AtEnd (compilation scope policy options)
        (finalBooks scope policy options root supply).names
        (Enters (compilation scope policy options) call)
        (Hands (compilation scope policy options) call) stop core →
      ∀ data output, data.Exact → data.WellFormed → Passes scope room node data output →
        (wrap layers core).Takes (named (finalBooks scope policy options root supply).definitions)
          data

/-- What a node passes at this depth is accepted by the answers for it in the run. -/
def AcceptsWithin (scope : Scope γ) (policy : ClaimPolicy) (options : DocumentOptions)
    (root : Schema γ) (supply room : Nat) : Prop :=
  ∀ call, InRun scope policy options root supply call →
    ∀ node c, Enters (compilation scope policy options) call node → Reaches scope root node →
      Refers (finalBooks scope policy options root supply).names node c ∨
        call.Makes (compilation scope policy options)
          (finalBooks scope policy options root supply) node c →
      ∀ data output, data.Exact → data.WellFormed → Passes scope room node data output →
        Accepts (named (finalBooks scope policy options root supply).definitions) c.schema data

variable (h : Comparable scope policy options root supply)
include h

theorem Comparable.notLimited : ¬ (finalBooks scope policy options root supply).Limited :=
  (standard scope policy).not_limited options root supply h.unlimited

/-- What a call makes of a node accepts what its assembly takes. -/
private theorem accepts_of_makes {room : Nat}
    (takes : TakesWithin scope policy options root supply room) {call : Call (Payload γ)}
    (within : InRun scope policy options root supply call) {node : Schema γ}
    {c : NodeSchema} (reaches : Reaches scope root node)
    (makes : call.Makes (compilation scope policy options)
      (finalBooks scope policy options root supply) node c)
    {data output : Json} (exact : data.Exact) (wellFormed : data.WellFormed)
    (passes : Passes scope room node data output) :
    Accepts (named (finalBooks scope policy options root supply).definitions) c.schema data := by
  cases makes with
  | tooDeep cut => exact absurd cut h.notLimited
  | unclaimed | failed => exact accepts_empty _ _
  | whole claimed unwraps atEnd =>
    exact Assembly.accepts_schema
      (takes call within node _ _ _ _ _ reaches claimed unwraps atEnd data output exact wellFormed
        passes)

theorem Comparable.acceptsWithin {room : Nat}
    (takes : TakesWithin scope policy options root supply room) :
    AcceptsWithin scope policy options root supply room := by
  intro call within node c enters reaches answers data output exact wellFormed passes
  rcases answers with ⟨name, bounds, named, rfl⟩ | makes
  · obtain ⟨schema, defined⟩ := Option.isSome_iff_exists.1
      ((standard scope policy).defined_of_named options root supply named)
    have trusted := (standard scope policy).trusted_books options root supply
    refine .reference rfl ((named_pointer _ name).trans defined) ?_
    rcases trusted.explained name schema defined with
      rfl | ⟨maker, other, c, within', enters', named', makes, rfl⟩
    · exact accepts_empty _ _
    · obtain rfl : node = other := h.identified call maker within within' node other enters enters'
        (trusted.injective _ _ _ named named')
      exact accepts_of_makes h takes within' reaches makes exact wellFormed passes
  · exact accepts_of_makes h takes within reaches makes exact wellFormed passes

/-- An entry that may be absent is compiled to an optional schema. -/
theorem Comparable.isOptional_of_skip {call : Call (Payload γ)}
    (within : InRun scope policy options root supply call) {node : Schema γ} {c : NodeSchema}
    (enters : Enters (compilation scope policy options) call node)
    (reaches : Reaches scope root node)
    (answers : Refers (finalBooks scope policy options root supply).names node c ∨
      call.Makes (compilation scope policy options)
        (finalBooks scope policy options root supply) node c)
    {room : Nat} (skips : Walk.absence scope room node = .ok .skip) : c.isOptional = true := by
  have steady := h.steady.of_reaches reaches
  have regular (inner : Schema γ) (further : Reaches scope node inner) : Regular scope inner :=
    h.regular inner (reaches.trans further)
  rcases answers with ⟨name, bounds, named, rfl⟩ | makes
  · exact absurd (hasOptional_of_skip steady regular skips 0)
      (h.bare call within node enters ⟨name, named⟩ 0)
  · cases makes with
    | tooDeep cut => exact absurd cut h.notLimited
    | unclaimed nobody =>
      cases room with
      | zero => cases skips
      | succ room =>
        rw [Walk.absence, fluent?_of_unclaimed nobody] at skips
        cases skips
    | whole claimed unwraps atEnd =>
      rcases Fluent.isOptional_of_skip steady regular claimed unwraps skips with
        isOptional | ⟨inner, room', same, further, skips⟩ | ⟨vendor, same⟩
      · exact isOptional
      · obtain rfl := Except.ok.inj same
        cases atEnd with
        | reentered entered named =>
          exact absurd (hasOptional_of_skip (h.steady.of_reaches (reaches.trans further))
            (fun other rest => regular other (further.trans rest)) skips 0)
            (h.bare call within inner entered ⟨_, named⟩ 0)
      · cases same
    | failed claimed unwraps cut atBase =>
      rcases Fluent.isOptional_of_skip steady regular claimed unwraps skips with
        isOptional | ⟨inner, room', rfl, -, -⟩ | ⟨vendor, same⟩
      · exact isOptional
      · obtain ⟨_, _, _, same⟩ := atBase _ rfl
        cases same
      · exact absurd (cut vendor same) h.notLimited

theorem Comparable.ordinary {node : Schema γ} (reaches : Reaches scope root node) :
    Ordinary scope node := fun inner further layer seen =>
  (h.regular inner (reaches.trans further)).ordinary layer (fluent?_eq_some_iff.1 seen)

/-- The members of a set are passed unchanged. -/
theorem Comparable.unchanging {node element : Schema γ} (reaches : Reaches scope root node)
    {layer : Layer γ} (seen : node.payload = .fluent layer) (isSet : layer.kind = .set element) :
    Unchanging scope element := by
  have below : Below scope node element :=
    .held (fluent?_eq_some_iff.2 seen) (isSet ▸ List.mem_singleton_self _)
  refine ⟨h.ordinary (reaches.tail below), fun inner further other isOther => ?_⟩
  exact (h.regular node reaches).members layer seen element isSet inner further other
    (fluent?_eq_some_iff.1 isOther)

/-- The constraints of a layer that admits a value are kept. -/
theorem Comparable.kept {node : Schema γ} (reaches : Reaches scope root node) {layer : Layer γ}
    (seen : node.payload = .fluent layer) {data : Json} (exact : data.Exact)
    (admits : Admits layer.details.constraints data) :
    ∀ c ∈ (Fluent.adapter scope).constraints node, c.KeptBy data := by
  intro c set
  obtain ⟨set, -⟩ := Option.filter_eq_some_iff.1 set
  have details : details? node = some layer.details := by
    rw [details?, fluent?_eq_some_iff.2 seen]
    rfl
  rw [details] at set
  obtain rfl := Option.some.inj set
  exact admits.keptBy ((h.regular node reaches).fits layer seen) exact

/-- The structure at the end of a chain accepts what its node passes. -/
theorem Comparable.accepts_structure {room : Nat}
    (answers : AcceptsWithin scope policy options root supply room) {call : Call (Payload γ)}
    (within : InRun scope policy options root supply call) {node : Schema γ}
    (reaches : Reaches scope root node) {layer : Layer γ}
    (seen : node.payload = .fluent layer) {shape : Shape}
    (isShape : layer.kind.predicate = .shape shape) {assembly : Assembly}
    (yields : Plan.Yields (Hands (compilation scope policy options) call)
      (Structure.ofShape options node (Fluent.adapter scope) shape) assembly)
    {data output : Json} (exact : data.Exact) (wellFormed : data.WellFormed)
    (allowed : Allows scope (Passes scope room) (Walk.absence scope Walk.nestingLimit) layer.kind
      data output) :
    Accepts (named (finalBooks scope policy options root supply).definitions) assembly.body
      data := by
  have isMatch := allowed.matches ((h.regular node reaches).literal layer seen) wellFormed
    fun element isSet value output passes =>
      passes.output_eq (h.unchanging reaches seen isSet).preserving
  cases isLeaf : layer.kind.isLeaf with
  | true => exact (accepts_leaf_iff isLeaf seen isShape yields _ _).2 isMatch
  | false =>
    -- The parts of the value are as exact and as well-formed as the value is.
    have inherits := isMatch.and (P := fun value => value.Exact ∧ value.WellFormed)
      ⟨exact, wellFormed⟩ (by
        rintro items rfl item mem
        rw [Json.Exact] at exact
        rw [Json.WellFormed] at wellFormed
        exact ⟨exact.2.of_mem mem, wellFormed.of_mem mem⟩) (by
        rintro fields rfl entry mem
        rw [Json.Exact] at exact
        rw [Json.WellFormed] at wellFormed
        obtain ⟨key, value⟩ := exact.2.of_mem mem
        exact ⟨⟨key, by simp [Json.WellFormed]⟩, value, wellFormed.2.of_mem mem⟩)
    have answer {part : Schema γ} (mem : part ∈ layer.kind.nodes) :
        Reaches scope root part :=
      reaches.tail (.held (fluent?_eq_some_iff.2 seen) mem)
    refine (composes_of_yields isLeaf seen isShape yields).accepts_of_matches ?_ ?_ inherits
    · rintro part mem _ ⟨inner, spawns, rfl, rfl⟩ value ⟨⟨output, passes⟩, exact, wellFormed⟩
      exact answers inner (within.tail spawns) inner.node _ (.self inner) (answer mem)
        ((standard scope policy).answers_books options root supply (within.tail spawns)) value
        output exact wellFormed passes
    · rintro part mem _ ⟨inner, spawns, rfl, rfl⟩ absent
      rcases absent with skips | ⟨value, fills⟩
      · exact h.isOptional_of_skip (within.tail spawns) (.self inner) (answer mem)
          ((standard scope policy).answers_books options root supply (within.tail spawns)) skips
      · exact absurd fills (absence_ne_fill (h.ordinary (answer mem)).unfilled _ _)

/-- The assembly at the end of a chain takes what its node passes. -/
theorem Comparable.takes_base {room : Nat}
    (answers : AcceptsWithin scope policy options root supply room) {call : Call (Payload γ)}
    (within : InRun scope policy options root supply call) {node : Schema γ}
    (reaches : Reaches scope root node) {layer : Layer γ}
    (seen : node.payload = .fluent layer) {modifier : Option Modifier} {core : Assembly}
    (atEnd : AtEnd (compilation scope policy options)
      (finalBooks scope policy options root supply).names
      (Enters (compilation scope policy options) call)
      (Hands (compilation scope policy options) call)
      (.base node (Fluent.adapter scope) modifier) core)
    {data output : Json} (exact : data.Exact) (wellFormed : data.WellFormed)
    (passes : Passes scope (room + 1) node data output) :
    core.Takes (named (finalBooks scope policy options root supply).definitions) data := by
  rw [Passes, fluent?_eq_some_iff.2 seen] at passes
  obtain ⟨allowed, admits⟩ := passes
  have kept := h.kept reaches seen exact admits
  cases atEnd with
  | shaped isShape yields =>
    have accepted := h.accepts_structure answers within reaches seen
      ((shape?_eq_some_iff seen).1 isShape) yields exact wellFormed allowed
    obtain ⟨body, bounds, rfl⟩ := Assembly.bare_of_yields yields
    exact (Assembly.takes_of_accepts accepted bounds).addLayer kept modifier
  | shapeless => exact (Assembly.takes_of_accepts (accepts_empty _ _) _).addLayer kept modifier

theorem Comparable.takesWithin_succ {room : Nat}
    (takes : TakesWithin scope policy options root supply room) :
    TakesWithin scope policy options root supply (room + 1) := by
  intro call within node adapter layers isOptional stop core reaches claimed unwraps atEnd data
    output exact wellFormed passes
  obtain ⟨rfl, layer, seen⟩ := (h.regular node reaches).layer claimed
  have steady := h.steady.of_reaches reaches
  have ordinary := (h.regular node reaches).ordinary layer seen
  have kept : ∀ c ∈ (Fluent.adapter scope).constraints node, c.KeptBy data := by
    have passes := passes
    rw [Passes, fluent?_eq_some_iff.2 seen] at passes
    exact h.kept reaches seen exact passes.2
  have answers := h.acceptsWithin takes
  -- A layer takes `null` if it admits that, and otherwise what is taken inside.
  have layered {modifier : Modifier}
      (wrapped : (Fluent.adapter scope).modifier? node = some modifier) {inner : Schema γ}
      (gives : Answer.Gives ((Fluent.adapter scope).inner node) (some inner))
      {f : Assembly} (inside : ∀ output', Passes scope room inner data output' →
        f.Takes (named (finalBooks scope policy options root supply).definitions) data) :
      (f.addLayer (Fluent.adapter scope) node (some modifier)).Takes
        (named (finalBooks scope policy options root supply).definitions) data := by
    rcases passes.inside steady seen ((modifier?_eq_some_iff seen).1 wrapped) ordinary gives with
      ⟨rfl, rfl⟩ | ⟨output', passes⟩
    · exact Assembly.takes_null f _ node
    · exact (inside output' passes).addLayer kept _
  cases unwraps with
  | base => exact h.takes_base answers within reaches seen atEnd exact wellFormed passes
  | hollow => exact h.takes_base answers within reaches seen atEnd exact wellFormed passes
  | @reentered _ inner _ _ wrapped gives =>
    refine layered wrapped gives fun output' passes => ?_
    have below := below_of_inner seen ((modifier?_eq_some_iff seen).1 wrapped) gives
    cases atEnd with
    | reentered entered named =>
      refine Assembly.takes_of_accepts ?_ _
      exact answers call within inner (.required _ .value) entered (reaches.tail below)
        (.inl ⟨_, _, named, rfl⟩) data output' exact wellFormed passes
  | unclaimed wrapped gives =>
    refine layered wrapped gives fun output' passes => ?_
    cases atEnd
    exact Assembly.takes_of_accepts (accepts_empty _ _) _
  | layer wrapped gives claimed' rest =>
    refine layered wrapped gives fun output' passes => ?_
    have below := below_of_inner seen ((modifier?_eq_some_iff seen).1 wrapped) gives
    exact takes call within _ _ _ _ _ core (reaches.tail below) claimed' rest atEnd data output'
      exact wellFormed passes

theorem Comparable.takesWithin (room : Nat) :
    TakesWithin scope policy options root supply room := by
  induction room with
  | zero =>
    intro call within node adapter layers isOptional stop core reaches claimed unwraps atEnd data
      output exact wellFormed passes
    cases passes
  | succ room ih => exact h.takesWithin_succ ih

/-- The document of a schema accepts the data that the validator parses. It does so as well when its
references are read as JSON Pointers, unless the stem of the names of its definitions needs
escaping. -/
theorem documentAccepts_of_parsed {data output : Json} (exact : data.Exact)
    (wellFormed : data.WellFormed)
    (parsed : (validate scope root data).value = .ok (.parsed output)) :
    DocumentAccepts ((standard scope policy).compile options root supply).1.value data ∧
      (Ledger.IsPlainStem options.defStem →
        PointerAccepts ((standard scope policy).compile options root supply).1.value data) := by
  have accepted :
      DocumentAccepts ((standard scope policy).compile options root supply).1.value data := by
    rw [value_compile, documentAccepts_iff options ((standard scope policy).schema_root options root
      supply (tidy_invariant _ _))]
    exact h.acceptsWithin (h.takesWithin _) (rootCall options root supply) .refl root _ (.self _)
      .refl ((standard scope policy).answers_books options root supply .refl) data output exact
      wellFormed (passes_of_validate parsed)
  exact ⟨accepted, fun plainStem =>
    ((standard scope policy).pointerAccepts_iff options root supply plainStem).2 accepted⟩

end Run

/-! ### A list that ends where its next part is left out -/

/-- The rest of a list, which may be absent: the list again, by a slot. -/
def listRest : Schema Empty :=
  Call.plainNode 1 (.optional (Call.plainNode 2 (.deferred (.slot "list"))))

/-- A list: an object whose only entry is the rest of the list. -/
def list : Schema Empty := Call.plainNode 0 (.object [("next", listRest)])

/-- The slot `list` stands for the list. -/
def listScope : Scope Empty := ⟨fun name => if name = "list" then some list else none, nofun⟩

/-- The nodes of the list. -/
private theorem list_nodes {node : Schema Empty} (reaches : Reaches listScope list node) :
    node = list ∨ node = listRest ∨ node = Call.plainNode 2 (.deferred (.slot "list")) := by
  induction reaches with
  | refl => exact .inl rfl
  | tail _ below ih =>
    rcases ih with rfl | rfl | rfl
    · cases below with
      | held seen mem =>
        obtain rfl := Option.some.inj seen
        exact .inr (.inl (List.mem_singleton.1 mem))
      | deferred seen isDeferred =>
        obtain rfl := Option.some.inj seen
        cases isDeferred
    · cases below with
      | held seen mem =>
        obtain rfl := Option.some.inj seen
        exact .inr (.inr (List.mem_singleton.1 mem))
      | deferred seen isDeferred =>
        obtain rfl := Option.some.inj seen
        cases isDeferred
    · cases below with
      | held seen mem =>
        obtain rfl := Option.some.inj seen
        cases mem
      | deferred seen isDeferred gives =>
        obtain rfl := Option.some.inj seen
        obtain rfl := Kind.deferred.inj isDeferred
        obtain ⟨_, gives⟩ := gives
        exact .inl (Except.ok.inj gives).symm

/-- The nodes of the list are regular. -/
private theorem list_regular {node : Schema Empty} (reaches : Reaches listScope list node) :
    Regular listScope node := by
  have unconstrained : Constraints.empty.Fits := by
    constructor <;> first | exact .inl rfl | exact nofun
  rcases list_nodes reaches with rfl | rfl | rfl
  all_goals
    refine ⟨rfl, ?_, ?_, ?_, ?_⟩
    all_goals
      rintro _ ⟨⟩
      first
        | rfl
        | trivial
        | exact unconstrained
        | exact nofun

private theorem list_comparable : Comparable listScope .firstMatch {} list 3 := by
  have plain (node : Schema Empty) (reaches : Reaches listScope list node) :
      node.payload.description? = none := (list_regular reaches).plain
  refine ⟨fun _ => list_regular, alike_of_isEmpty list, ?_, ?_, ?_⟩
  · intro a b inA inB m n isM isN same
    rcases list_nodes (reaches_of_enters plain inA isM) with rfl | rfl | rfl <;>
      rcases list_nodes (reaches_of_enters plain inB isN) with rfl | rfl | rfl <;>
        first | rfl | cases same
  · have reports : ((Registry.standard listScope .firstMatch).compile {} list 3).1.events.map
        (·.reachesLimit) = [false] := by decide +kernel
    intro event mem
    have reported := List.mem_map_of_mem (f := (·.reachesLimit)) mem
    rw [reports] at reported
    exact List.mem_singleton.1 reported
  · rintro call within node enters ⟨name, named⟩ s hasOptional
    have keys : Table.keys ((Registry.standard listScope .firstMatch).books {} list 3).names =
        [⟨0⟩] := by decide +kernel
    have isNamed : node.id ∈ [(⟨0⟩ : Identity)] := by
      rw [← keys, ← Table.has_iff_mem_keys, Table.has, named, Option.isSome_some]
    rcases list_nodes (reaches_of_enters plain within enters) with rfl | rfl | rfl
    · have claims : ((Registry.standard listScope .firstMatch).resolve list).value =
          some (Fluent.adapter listScope) := rfl
      obtain ⟨modifier, wrapped, -⟩ := (Chain.hasOptional_iff claims).1 hasOptional
      cases wrapped
    · cases List.mem_singleton.1 isNamed
    · cases List.mem_singleton.1 isNamed

/-- The document of the list accepts a list of two parts, also when its references are read as JSON
Pointers. -/
theorem list_accepts_two :
    (validate listScope list (.object [("next", .object [])])).value =
        .ok (.parsed (.object [("next", .object [])])) ∧
      DocumentAccepts ((Registry.standard listScope .firstMatch).compile {} list 3).1.value
        (.object [("next", .object [])]) ∧
      PointerAccepts ((Registry.standard listScope .firstMatch).compile {} list 3).1.value
        (.object [("next", .object [])]) := by
  have exact : (Json.object [("next", .object [])]).Exact := by
    simp [Json.Exact, Json.ExactFields]
    decide
  have wellFormed : (Json.object [("next", .object [])]).WellFormed := by
    simp [Json.WellFormed, Json.WellFormedFields]
  have parsed : (validate listScope list (.object [("next", .object [])])).value =
      .ok (.parsed (.object [("next", .object [])])) := rfl
  obtain ⟨accepted, asPointers⟩ :=
    documentAccepts_of_parsed list_comparable exact wellFormed parsed
  exact ⟨parsed, accepted, asPointers (.inr (by decide))⟩

end Fluent

end SchemaBridge
