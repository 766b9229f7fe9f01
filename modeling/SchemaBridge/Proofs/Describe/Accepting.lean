import SchemaBridge.Proofs.Describe.Predicates
import SchemaBridge.Proofs.Describe.Structures

/-!
# Documents accept what the validator of descriptions accepts

The compiler takes the modifiers of a description off one by one and compiles the structure that is
left; the validator reads them all at once. Data that the validator accepts is accepted by the
document, if the lists of allowed values add nothing that the compiler would not see: by induction
on the calls of the run, and along the chain of each node. A description is acyclic, so no part is a
reference.

Allowed values beside others that are neither `null` nor of the type, `null` among values that are
the only ones, and the only values against the rules are let pass by the validator and by nobody
else; and so are integers that only keep a bound when they are rounded to a double.

## Main results

* `Describe.takes_of_unwraps` : the layers of a description take the data that suits it.
* `Describe.serves_answer` : the answer of a call serves the description of its node.
* `Describe.documentAccepts_of_accepted` : the document accepts what the validator accepts.
* `Describe.accepted_refused` : lists of allowed values that add something, and a rounded integer.
-/

namespace SchemaBridge.Describe

open Draft07 Registry Chain Compile Call

variable {γ : Type} {doc data : Json}

/-! ### The outermost modifier -/

section Modifier

variable {node : Schema γ} (holds : node.payload = .description doc)
include holds

theorem modifier?_of_mayBeAbsent (absent : mayBeAbsent doc = true) :
    (adapter : Adapter (Payload γ)).modifier? node = some .optional :=
  List.find?_cons_of_pos ((holds_adapter holds _).trans absent)

theorem modifier?_of_admitsNull (present : mayBeAbsent doc = false)
    (admits : admitsNull doc = true) :
    (adapter : Adapter (Payload γ)).modifier? node = some .nullable := by
  have notOptional : (adapter : Adapter (Payload γ)).holds (.modifier .optional) node = false :=
    (holds_adapter holds _).trans present
  have nullable : (adapter : Adapter (Payload γ)).holds (.modifier .nullable) node = true := by
    rw [holds_adapter holds]
    change (!mayBeAbsent doc && admitsNull doc) = true
    rw [present, admits]
    rfl
  simp only [Adapter.modifier?, Modifier.priority, List.find?_cons, notOptional, nullable]

/-- A document with a modifier has one that can be taken off. -/
theorem exists_peel?_of_modifier? {modifier : Modifier}
    (wrapped : (adapter : Adapter (Payload γ)).modifier? node = some modifier) :
    ∃ inner, peel? doc = some inner := by
  have isModifier := Adapter.holds_of_modifier? wrapped
  rw [holds_adapter holds] at isModifier
  change hasModifier doc modifier = true at isModifier
  unfold peel?
  split
  · exact ⟨_, rfl⟩
  · split
    · exact ⟨_, rfl⟩
    · split
      · exact ⟨_, rfl⟩
      · cases modifier <;> simp_all [hasModifier]

/-- The constraints of a node are those of its document. -/
theorem eq_constraints_of_mem {c : Constraints}
    (mem : c ∈ (adapter : Adapter (Payload γ)).constraints node) :
    c = Describe.constraints doc := by
  change c ∈ (node.payload.description?.map Describe.constraints).filter _ at mem
  rw [holds] at mem
  exact (Option.some.inj (Option.filter_eq_some_iff.1 mem).1).symm

/-- Data that suits the document of a node keeps the constraints of the node. -/
theorem keptBy_of_suits (coherent : Coherent doc) (suits : Suits doc data) (exact : data.Exact) :
    ∀ c ∈ (adapter : Adapter (Payload γ)).constraints node, c.KeptBy data := by
  intro c mem
  rw [eq_constraints_of_mem holds mem]
  exact suits.kept coherent.consistent exact

theorem hasShape_of_shape? {shape : Shape}
    (seen : (adapter : Adapter (Payload γ)).shape? node = some shape) : hasShape doc shape = true :=
  (holds_adapter holds (.shape shape)).symm.trans (Adapter.holds_of_shape? seen)

/-- A document that may be absent is found to be optional, unless there is no room for its
layers. -/
theorem isOptional_of_mayBeAbsent {scope : Scope γ} {policy : ClaimPolicy}
    {claimer : Adapter (Payload γ)} {layers : List (PeeledLayer (Payload γ))} {isOptional : Bool}
    {stop : Except CompileFailure (ChainEnd (Payload γ))}
    (claims : ((standard scope policy).resolve node).value = some claimer)
    (unwraps : Unwraps (standard scope policy) node claimer layers isOptional stop)
    (absent : mayBeAbsent doc = true) :
    isOptional = true ∨ ∃ vendor, stop = .error (.endless vendor) := by
  obtain ⟨rfl, -⟩ := eq_adapter_of_claimed holds claims
  have isOptional := modifier?_of_mayBeAbsent holds absent
  cases unwraps with
  | base plain => cases isOptional.symm.trans plain
  | endless => exact .inr ⟨_, rfl⟩
  | failed wrapped | hollow wrapped | reentered wrapped | unclaimed wrapped =>
    obtain rfl := Option.some.inj (isOptional.symm.trans wrapped)
    exact .inl rfl
  | layer wrapped =>
    obtain rfl := Option.some.inj (isOptional.symm.trans wrapped)
    exact .inl (Bool.true_or _)

end Modifier

/-! ### Chains -/

variable {scope : Scope γ} {policy : ClaimPolicy} {options : DocumentOptions}

section Chains

variable {targets : Targets} {enters : Schema γ → Prop}
  {compiles : Schema γ → NodeSchema → Prop}
  (serves : ∀ node c, compiles node c → ∀ doc, node.payload = .description doc → Coherent doc →
    Serves targets doc c)
include serves

/-- The end of the chain of a description takes the data that suits it. -/
private theorem takes_base {node : Schema γ} {modifier : Option Modifier} {core : Assembly}
    (atEnd : AtEnd ⟨standard scope policy, options⟩ [] enters compiles (.base node adapter modifier)
      core) (holds : node.payload = .description doc) (coherent : Coherent doc)
    (suits : Suits doc data) (exact : data.Exact) : core.Takes targets data := by
  have kept := keptBy_of_suits holds coherent suits exact
  cases atEnd with
  | shaped seen yields =>
    have accepted :=
      accepts_structure serves holds coherent suits exact (hasShape_of_shape? holds seen) yields
    obtain ⟨body, bounds, rfl⟩ := Assembly.bare_of_yields yields
    exact (Assembly.takes_of_accepts accepted bounds).addLayer kept modifier
  | shapeless => exact (Assembly.takes_of_accepts (accepts_empty _ _) _).addLayer kept modifier

/-- The layers of a description take the data that suits it, if the answers for the parts serve
these. -/
theorem takes_of_unwraps {node : Schema γ} {claimer : Adapter (Payload γ)}
    {layers : List (PeeledLayer (Payload γ))} {isOptional : Bool} {stop : ChainEnd (Payload γ)}
    {core : Assembly} (claims : ((standard scope policy).resolve node).value = some claimer)
    (unwraps : Unwraps (standard scope policy) node claimer layers isOptional (.ok stop))
    (atEnd : AtEnd ⟨standard scope policy, options⟩ [] enters compiles stop core)
    (holds : node.payload = .description doc) (coherent : Coherent doc) (suits : Suits doc data)
    (exact : data.Exact) : (wrap layers core).Takes targets data := by
  generalize same : Except.ok stop = result at unwraps
  induction unwraps generalizing doc with
  | base =>
    obtain ⟨rfl, -⟩ := eq_adapter_of_claimed holds claims
    obtain rfl := Except.ok.inj same
    exact takes_base serves atEnd holds coherent suits exact
  | hollow wrapped gives =>
    obtain ⟨rfl, -⟩ := eq_adapter_of_claimed holds claims
    obtain ⟨inner, peels⟩ := exists_peel?_of_modifier? holds wrapped
    have none := gives_inner holds gives
    rw [peels] at none
    cases none
  | reentered =>
    obtain rfl := Except.ok.inj same
    obtain _ | _ | ⟨-, named⟩ := atEnd
    cases named
  | @unclaimed _ _ _ modifier wrapped gives =>
    obtain ⟨rfl, -⟩ := eq_adapter_of_claimed holds claims
    obtain rfl := Except.ok.inj same
    cases atEnd
    exact (Assembly.takes_of_accepts (accepts_empty _ _) _).addLayer (keptBy_of_suits holds coherent
      suits exact) _
  | @layer node inner _ next modifier layers isOptional _ wrapped gives claims' _ ih =>
    obtain ⟨rfl, -⟩ := eq_adapter_of_claimed holds claims
    obtain ⟨part, peels⟩ := exists_peel?_of_modifier? holds wrapped
    have holds' := gives_inner holds gives
    rw [peels, Option.map_some, Option.map_some] at holds'
    rcases suits.peel peels coherent.consistent with suits' | ⟨rfl, present, admits⟩
    · exact (ih claims' (Option.some.inj holds') (coherent.peel peels coherent.consistent) suits'
        same).addLayer (keptBy_of_suits holds coherent suits exact) _
    · obtain rfl :=
        Option.some.inj (wrapped.symm.trans (modifier?_of_admitsNull holds present admits))
      exact Assembly.takes_null _ _ _
  | endless | failed => cases same

/-- The answer for a description serves it. -/
theorem serves_of_builds {limited : Prop} (unlimited : ¬ limited) {node : Schema γ} {c : NodeSchema}
    (builds : Builds ⟨standard scope policy, options⟩ [] limited enters compiles node c)
    (holds : node.payload = .description doc) (coherent : Coherent doc) : Serves targets doc c := by
  cases builds with
  | tooDeep cut => exact absurd cut unlimited
  | unclaimed nobody =>
    refine ⟨fun value _ _ => accepts_empty targets value, fun absent => ?_⟩
    rw [resolve_standard, holds] at nobody
    cases doc with
    | object => cases nobody
    | null | bool | number | string | array => cases absent
  | whole claims unwraps atEnd =>
    refine ⟨fun value exact suits => Assembly.accepts_schema
      (takes_of_unwraps serves claims unwraps atEnd holds coherent suits exact), fun absent => ?_⟩
    exact (isOptional_of_mayBeAbsent holds claims unwraps absent).resolve_right nofun
  | failed claims unwraps cut =>
    refine ⟨fun value _ _ => accepts_empty targets value, fun absent => ?_⟩
    refine (isOptional_of_mayBeAbsent holds claims unwraps absent).resolve_right ?_
    rintro ⟨vendor, endless⟩
    exact unlimited (cut vendor endless)

end Chains

/-! ### Runs -/

/-- Data that the validator accepts is passed. -/
theorem passes_of_validate {node : Schema γ} (holds : node.payload = .description doc)
    (accepted : ((adapter : Adapter (Payload γ)).validate node data).value = .ok .accepted) :
    Passes doc data := by
  change (do validate (← documentOf node) data) = Except.ok VendorOutcome.accepted at accepted
  rw [documentOf, holds] at accepted
  exact ⟨[], validate_eq_accepted_iff.1 accepted⟩

section Run

variable {supply : Nat} (unlimited : ∀ event ∈ ((standard scope policy).compile options
    (Schema.ofDescription doc supply).1 (supply + 1)).1.events, event.reachesLimit = false)
include unlimited

/-- The answer of a call of the run on a description serves the description of its node, whatever
references would stand for: there are none. -/
theorem serves_answer (targets : Targets) {call : Call (Payload γ)}
    (within : Call.Within ⟨standard scope policy, options⟩
      (rootCall options (Schema.ofDescription doc supply).1 (supply + 1)) call) {part : Json}
    (holds : call.node.payload = .description part) (coherent : Coherent part) :
    Serves targets part (call.answer ⟨standard scope policy, options⟩) := by
  induction call using Call.induct ⟨standard scope policy, options⟩ generalizing part with
  | step call ih =>
    have answers := (standard scope policy).answers_books options _ _ within
    rw [Answers, Makes, names_books] at answers
    rcases answers with ⟨name, bounds, named, -⟩ | builds
    · cases named
    · refine serves_of_builds ?_ ?_ builds holds coherent
      · rintro node _ ⟨inner, spawns, rfl, rfl⟩ part holds coherent
        exact ih inner spawns (within.tail spawns) holds coherent
      · rintro ⟨event, mem, reaches⟩
        rw [unlimited event (List.mem_reverse.2 mem)] at reaches
        cases reaches

/-- A document that only lists allowed values of its types, and no default, accepts the data that
the validator accepts. -/
theorem documentAccepts_of_accepted (coherent : Coherent doc) (exact : data.Exact)
    (accepted : ((adapter : Adapter (Payload γ)).validate (Schema.ofDescription doc supply).1
      data).value = .ok .accepted) :
    DocumentAccepts ((standard scope policy).compile options (Schema.ofDescription doc supply).1
      (supply + 1)).1.value data := by
  rw [value_compile, documentAccepts_iff options ((standard scope policy).schema_root options _ _
    (tidy_invariant _ _))]
  exact (serves_answer unlimited _ .refl rfl coherent).accepts data exact
    (passes_of_validate rfl accepted).suits

end Run

/-! ### An entry that may be absent or `null` -/

/-- There are no slots. -/
def noScope : Scope Empty := ⟨fun _ => none, nofun⟩

/-- A word that may be absent or `null`, and is not empty. -/
def word : Json :=
  .object [("type", .string "string"), ("allow", .array [.null]),
    ("flags", .object [("presence", .string "optional")]),
    ("rules", .array [.object [("name", .string "min"),
      ("args", .object [("limit", .number (.integer 1))])]])]

/-- An object whose only key is a word. -/
def entry : Json := .object [("type", .string "object"), ("keys", .object [("word", word)])]

private theorem coherent_word : Coherent word := by
  refine .of_inside ⟨rfl, fun _ value isAllowed => ?_, nofun, fun rule mem limit isLimit => ?_⟩
    fun part inside => ?_
  · obtain ⟨allowed, mem, same⟩ := List.any_eq_true.1 isAllowed
    obtain rfl := List.mem_singleton.1 mem
    exact .inl (by cases value <;> first | rfl | cases same)
  · obtain rfl := List.mem_singleton.1 mem
    obtain rfl := Option.some.inj isLimit
    decide +kernel
  · cases inside with
    | key mem | alternative mem | position mem | item mem => cases mem
    | rule isRule => cases isRule

private theorem coherent_entry : Coherent entry := by
  refine .of_inside ⟨rfl, fun _ value isAllowed => ?_, nofun, nofun⟩ fun part inside => ?_
  · cases isAllowed
  · cases inside with
    | key mem =>
      obtain ⟨-, rfl⟩ := Prod.mk.inj (List.mem_singleton.1 mem)
      exact coherent_word
    | alternative mem | position mem | item mem => cases mem
    | rule isRule => cases isRule

/-- The validator has no issue with an entry that is `null`. -/
private theorem validate_entry : validate entry (.object [("word", .null)]) = .ok .accepted := by
  have passed : check word .null ['w', 'o', 'r', 'd'] = .ok [] := by
    rw [check]
    rfl
  have checks : check entry (.object [("word", .null)]) [] = (do
      let found ← (do return (← check word .null ['w', 'o', 'r', 'd']) ++ [])
      return [] ++ found) := by
    rw [check]
    rfl
  rw [validate, checks, passed]
  rfl

/-- The document of the object accepts an entry that is `null`. -/
theorem entry_accepts_null :
    Coherent entry ∧ ((adapter : Adapter (Payload Empty)).validate (Schema.ofDescription entry 0).1
        (.object [("word", .null)])).value = .ok .accepted ∧
      DocumentAccepts ((standard noScope .firstMatch).compile {} (Schema.ofDescription entry 0).1
        1).1.value (.object [("word", .null)]) := by
  have exact : (Json.object [("word", .null)]).Exact := by
    simp [Json.Exact, Json.ExactFields]
    decide
  exact ⟨coherent_entry, validate_entry,
    documentAccepts_of_accepted (fun _ mem => by cases mem) coherent_entry exact validate_entry⟩

/-! ### Data that the validator accepts and the document does not -/

/-- The validator accepts data that the compiled document refuses, though no limit is reached. -/
def Refuses (doc data : Json) : Prop :=
  ((adapter : Adapter (Payload Empty)).validate (Schema.ofDescription doc 0).1 data).value =
      .ok .accepted ∧
    ((standard noScope .firstMatch).compile {} (Schema.ofDescription doc 0).1 1).1.events = [] ∧
    ¬ DocumentAccepts ((standard noScope .firstMatch).compile {} (Schema.ofDescription doc 0).1
      1).1.value data

/-- A keyword that fails for data that the validator has no issue with. -/
private theorem refuses_of_assertion {value : Json} {schema : Json.Fields} {keyword : String}
    (checks : check doc data [] = .ok [])
    (compiles : ((standard noScope .firstMatch).compile {} (Schema.ofDescription doc 0).1 1).1 =
      ⟨[], .object schema⟩)
    (isPlain : Table.get? schema "$ref" = none) (mem : (keyword, value) ∈ schema)
    (isAssertion : keyword ∉ applicators) (fails : assertion keyword value data = false) :
    Refuses doc data := by
  refine ⟨?_, by rw [compiles], ?_⟩
  · change validate doc data = _
    rw [validate, checks]
    rfl
  · rw [compiles]
    rintro ⟨root, isRoot, accepted⟩
    obtain rfl := Json.object.inj isRoot
    cases accepted with
    | reference isReference => cases isPlain.symm.trans isReference
    | keywords _ holds =>
      cases holds keyword value mem with
      | assertion _ holds => cases fails.symm.trans holds
      | notObject isAboutObjects =>
        have within : ∀ word ∈ ["properties", "additionalProperties", "propertyNames"],
            word ∈ applicators := by decide
        exact isAssertion (within keyword isAboutObjects)
      | notArray isAboutArrays =>
        have within : ∀ word ∈ ["items", "additionalItems"], word ∈ applicators := by decide
        exact isAssertion (within keyword isAboutArrays)
      | _ => exact isAssertion (by decide)

/-- A number, or a word that is allowed beside it. -/
def numberOrWord : Json :=
  .object [("type", .string "number"), ("allow", .array [.string "x"])]

/-- Exclusive values, one of which is `null`. -/
def nullOrWord : Json :=
  .object [("type", .string "string"), ("allow", .array [.null, .string "x"]),
    ("flags", .object [("only", .bool true)])]

/-- A number as the only value, though it breaks a rule. -/
def onlySmall : Json :=
  .object [("type", .string "number"), ("allow", .array [.number (.integer 3)]),
    ("flags", .object [("only", .bool true)]),
    ("rules", .array [.object [("name", .string "min"),
      ("args", .object [("limit", .number (.integer 5))])]])]

/-- A number of at most `2 ^ 53`. -/
def atMostExact : Json :=
  .object [("type", .string "number"),
    ("rules", .array [.object [("name", .string "max"),
      ("args", .object [("limit", .number (.integer 9007199254740992))])]])]

/-- Allowed values of another type, `null` among the only values, an only value against a rule, and
an integer that is rounded down to a limit. -/
theorem accepted_refused :
    Refuses numberOrWord (.string "x") ∧ Refuses nullOrWord .null ∧
      Refuses onlySmall (.number (.integer 3)) ∧
      Refuses atMostExact (.number (.integer 9007199254740993)) := by
  refine ⟨refuses_of_assertion ?_ rfl rfl (.head _) (by decide) (by decide),
    refuses_of_assertion ?_ rfl rfl (.head _) (by decide) rfl,
    refuses_of_assertion ?_ rfl rfl (.tail _ (.head _)) (by decide) (by decide +kernel),
    refuses_of_assertion ?_ rfl rfl (.tail _ (.head _)) (by decide) (by decide +kernel)⟩
  · rw [check]
    rfl
  · rw [check]
    rfl
  · rw [check]
    rfl
  · -- The arithmetic of doubles is left to the kernel.
    have rounded : ruleIssues atMostExact (.number (.integer 9007199254740993)) [] = [] :=
      List.isEmpty_iff.1 (by decide +kernel)
    have unfolds : step atMostExact (fun part => check part.1) (.number (.integer 9007199254740993))
        [] = return ruleIssues atMostExact (.number (.integer 9007199254740993)) [] ++ [] := rfl
    rw [check, unfolds, rounded]
    rfl

end SchemaBridge.Describe
