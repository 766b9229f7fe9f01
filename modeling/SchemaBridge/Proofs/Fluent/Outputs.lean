import SchemaBridge.Proofs.Compile.Required
import SchemaBridge.Proofs.Fluent.Likeness
import SchemaBridge.Proofs.Fluent.Structures
import SchemaBridge.Proofs.Json.Equality

/-!
# Data that is passed unchanged

The validator builds an output, but only some kinds change anything: defaults and fallbacks put
values in, and transformations replace them. Where none of these is reached the output is the data,
and what a kind allows is told by the data alone.

## Main definitions

* `Fluent.Preserving` : no kind that is reached from a node puts a value in or transforms data.
* `Fluent.Kind.isOrdinary` : the kinds that put nothing in, and for which an entry has to be there.
* `Fluent.Unchanging` : the kinds that are reached from a node are ordinary, and transform nothing.

## Main results

* `Fluent.Passes.output_eq` : the output is the data where nothing changes it.
* `Fluent.output_eq_of_parsed` : so it is for the whole validator.
* `Fluent.Allows.matches` : what a kind allows is of its type, and its parts are passed.
-/

namespace SchemaBridge.Fluent

open Draft07

variable {γ : Type} {scope : Scope γ}

/-- The kind puts a value in where there is none, or none that is accepted. -/
def Kind.fills {ν : Type} : Kind γ ν → Bool
  | .defaulted _ _ | .caught _ _ => true
  | _ => false

/-- No kind that is reached from a node puts a value in. -/
def Unfilled (scope : Scope γ) (node : Schema γ) : Prop :=
  ∀ inner, Reaches scope node inner → ∀ layer, inner.payload.fluent? = some layer →
    layer.kind.fills = false

/-- No kind that is reached from a node puts a value in or transforms data. -/
structure Preserving (scope : Scope γ) (node : Schema γ) : Prop where
  unfilled : Unfilled scope node
  untransformed : ∀ inner, Reaches scope node inner → ∀ layer, inner.payload.fluent? = some layer →
    ∀ part apply, layer.kind ≠ .transformed part apply

theorem Unfilled.of_below {node inner : Schema γ} (h : Unfilled scope node)
    (below : Below scope node inner) : Unfilled scope inner :=
  fun other reaches => h other (.head below reaches)

theorem Preserving.of_below {node inner : Schema γ} (h : Preserving scope node)
    (below : Below scope node inner) : Preserving scope inner :=
  ⟨h.unfilled.of_below below, fun other reaches => h.untransformed other (.head below reaches)⟩

/-- The kind neither puts a value in nor stands for an absent one. -/
def Kind.isOrdinary {ν : Type} : Kind γ ν → Bool
  | .defaulted _ _ | .caught _ _ | .undefined | .void => false
  | _ => true

/-- All kinds that are reached from a node are ordinary. -/
def Ordinary (scope : Scope γ) (node : Schema γ) : Prop :=
  ∀ inner, Reaches scope node inner → ∀ layer, inner.payload.fluent? = some layer →
    layer.kind.isOrdinary = true

/-- All kinds that are reached from a node are ordinary, and none of them transforms data. -/
structure Unchanging (scope : Scope γ) (node : Schema γ) : Prop where
  ordinary : Ordinary scope node
  untransformed : ∀ inner, Reaches scope node inner → ∀ layer, inner.payload.fluent? = some layer →
    ∀ part apply, layer.kind ≠ .transformed part apply

theorem Ordinary.unfilled {node : Schema γ} (h : Ordinary scope node) : Unfilled scope node := by
  intro inner reaches layer seen
  have ordinary := h inner reaches layer seen
  generalize layer.kind = kind at ordinary
  cases kind <;> first | rfl | cases ordinary

theorem Unchanging.preserving {node : Schema γ} (h : Unchanging scope node) :
    Preserving scope node :=
  ⟨h.ordinary.unfilled, h.untransformed⟩

theorem below_of_targetOf {node inner : Schema γ} {layer : Layer γ} {target : Deferred γ}
    (seen : node.payload.fluent? = some layer) (isDeferred : layer.kind = .deferred target)
    (gives : Walk.targetOf scope target = .ok inner) : Below scope node inner :=
  .deferred seen isDeferred ⟨0, gives⟩

/-! ### Absent entries -/

/-- A value is only put in for an absent entry where a kind that does so is reached. -/
theorem absence_ne_fill {node : Schema γ} (h : Unfilled scope node) (room : Nat) (value : Json) :
    Walk.absence scope room node ≠ .ok (.fill value) := by
  induction room generalizing node with
  | zero => exact nofun
  | succ room ih =>
    intro fills
    rw [Walk.absence] at fills
    cases seen : node.payload.fluent? with
    | none =>
      rw [seen] at fills
      cases fills
    | some layer =>
      have unfilled := h node .refl layer seen
      rw [seen] at fills
      obtain ⟨kind, details⟩ := layer
      cases kind with
      | nullable inner | branded inner _ | refined inner _ _ | transformed inner _ =>
        exact ih (h.of_below (.held seen (List.mem_singleton_self _))) fills
      | deferred target =>
        cases gives : Walk.targetOf scope target with
        | error error =>
          simp only [gives] at fills
          cases fills
        | ok inner =>
          simp only [gives] at fills
          exact ih (h.of_below (below_of_targetOf seen rfl gives)) fills
      | defaulted | caught => cases unfilled
      | _ => cases fills

/-! ### Outputs -/

theorem Items.outputs_eq {check : Nat → Json → Json → Prop}
    (keeps : ∀ i value output, check i value output → output = value) {i : Nat}
    {values outputs : List Json} (h : Items check i values outputs) : outputs = values := by
  induction h with
  | nil => rfl
  | cons first _ ih => rw [keeps _ _ _ first, ih]

theorem Entry.outputs_eq {key value : Json → Json → Prop}
    (keeps : ∀ data output, value data output → output = data) {fields outputs : Json.Fields}
    (h : List.Forall₂ (Entry key value) fields outputs) : outputs = fields := by
  induction h with
  | nil => rfl
  | cons first _ ih =>
    rw [ih]
    exact congrArg₂ List.cons (Prod.ext first.1.symm (keeps _ _ first.2.2)) rfl

theorem Properties.output_eq {check : Schema γ → Json → Json → Prop}
    {absence : Schema γ → Except VendorError Absence} {data before after : Json.Fields}
    {entries : List (String × Schema γ)}
    (keeps : ∀ entry ∈ entries, ∀ value output, check entry.2 value output → output = value)
    (empty : ∀ entry ∈ entries, ∀ value, absence entry.2 ≠ .ok (.fill value))
    (start : before = data) (h : Properties check absence data entries before after) :
    after = data := by
  induction h with
  | nil => exact start
  | @present _ _ rest _ _ _ _ found passed _ ih =>
    obtain ⟨keepsFirst, keeps⟩ := List.forall_mem_cons.1 keeps
    refine ih keeps (List.forall_mem_cons.1 empty).2 ?_
    rw [start, keepsFirst _ _ passed, Table.put_of_get? found]
  | skipped _ _ _ ih =>
    exact ih (List.forall_mem_cons.1 keeps).2 (List.forall_mem_cons.1 empty).2 start
  | filled _ fill => exact absurd fill ((List.forall_mem_cons.1 empty).1 _)

/-- The output is the data where nothing that is reached changes it. -/
theorem Passes.output_eq {node : Schema γ} (h : Preserving scope node) {room : Nat}
    {data output : Json} (passes : Passes scope room node data output) : output = data := by
  induction room generalizing node data output with
  | zero => cases passes
  | succ room ih =>
    rw [Passes] at passes
    cases seen : node.payload.fluent? with
    | none =>
      rw [seen] at passes
      exact passes
    | some layer =>
      have unfilled := h.unfilled node .refl layer seen
      have untransformed := h.untransformed node .refl layer seen
      rw [seen] at passes
      have inside (inner : Schema γ) (mem : inner ∈ layer.kind.nodes) {data output : Json}
          (passes : Passes scope room inner data output) : output = data :=
        ih (h.of_below (.held seen mem)) passes
      have held (inner : Schema γ) (mem : inner ∈ layer.kind.nodes) : Preserving scope inner :=
        h.of_below (.held seen mem)
      obtain ⟨allowed, -⟩ := passes
      obtain ⟨kind, details⟩ := layer
      cases kind with
      | string | date | number | boolean | null | bigint | literal | enumeration | instanceOf
      | intersection => exact allowed.2
      | undefined | void | never => cases allowed
      | any | unknown | symbol | function => exact allowed
      | object entries =>
        obtain ⟨fields, outputs, rfl, rfl, properties⟩ := allowed
        have isNode {entry : String × Schema γ} (mem : entry ∈ entries) :
            entry.2 ∈ (Kind.object (γ := γ) entries).nodes := List.mem_map_of_mem mem
        rw [properties.output_eq (fun entry mem _ _ => inside entry.2 (isNode mem))
          (fun entry mem => absence_ne_fill (held entry.2 (isNode mem)).unfilled _) rfl]
      | array element =>
        obtain ⟨values, outputs, rfl, rfl, items⟩ := allowed
        rw [items.outputs_eq fun _ _ _ => inside element (List.mem_singleton_self _)]
      | set element =>
        obtain ⟨values, outputs, rfl, rfl, items, -⟩ := allowed
        rw [items.outputs_eq fun _ _ _ => inside element (List.mem_singleton_self _)]
      | tuple positions rest =>
        obtain ⟨values, outputs, rfl, rfl, -, -, items⟩ := allowed
        rw [items.outputs_eq fun i value output passes => ?_]
        cases isPart : positions[i]?.or rest with
        | none =>
          rw [isPart] at passes
          exact passes
        | some part =>
          rw [isPart] at passes
          exact inside part (Kind.mem_nodes_tuple isPart) passes
      | record key value | map key value =>
        obtain ⟨fields, outputs, rfl, rfl, entries⟩ := allowed
        rw [Entry.outputs_eq (fun _ _ => inside value (by simp [Kind.nodes])) entries]
      | union options =>
        obtain ⟨option, mem, passes⟩ := allowed
        exact inside option mem passes
      | promise inner | optional inner | branded inner _ =>
        exact inside inner (List.mem_singleton_self _) allowed
      | nullable inner =>
        rcases allowed with ⟨rfl, rfl⟩ | passes
        · rfl
        · exact inside inner (List.mem_singleton_self _) passes
      | refined inner => exact inside inner (List.mem_singleton_self _) allowed.1
      | deferred target =>
        obtain ⟨inner, gives, passes⟩ := allowed
        exact ih (h.of_below (below_of_targetOf seen rfl gives)) passes
      | defaulted | caught => cases unfilled
      | transformed part apply => exact absurd rfl (untransformed part apply)

/-- Where no kind that is reached puts a value in or transforms data, the validator gives the data
back: the values, and the order of all keys. -/
theorem output_eq_of_parsed {node : Schema γ} (h : Preserving scope node) {data output : Json}
    (parsed : (validate scope node data).value = .ok (.parsed output)) : output = data := by
  have passes := passes_of_validate parsed
  exact passes.output_eq h

/-- What a link refers to: the slot `link`. -/
def nextLink : Schema Empty := Call.plainNode 1 (.deferred (.slot "link"))

/-- A record of further links, each with a refinement that lets everything pass. -/
def linkRecord : Schema Empty :=
  Call.plainNode 2 (.record (Call.plainNode 3 .string)
    (Call.plainNode 4 (.refined nextLink "" fun _ => true)))

/-- The end of a chain of links, or a record of further links. -/
def link : Schema Empty := Call.plainNode 0 (.union [Call.plainNode 5 .null, linkRecord])

/-- The slot `link` stands for the link. -/
def linkScope : Scope Empty := ⟨fun name => if name = "link" then some link else none, nofun⟩

/-- The nodes of the link. -/
private theorem link_nodes {node : Schema Empty} (reaches : Reaches linkScope link node) :
    node ∈ [link, Call.plainNode 5 .null, linkRecord, Call.plainNode 3 .string,
      Call.plainNode 4 (.refined nextLink "" fun _ => true), nextLink] := by
  induction reaches with
  | refl => exact .head _
  | tail _ below ih =>
    cases below with
    | held seen mem =>
      simp only [List.mem_cons, List.not_mem_nil, or_false] at ih ⊢
      rcases ih with rfl | rfl | rfl | rfl | rfl | rfl
      all_goals
        obtain rfl := Option.some.inj seen
        first
          | cases mem; done
          | simp only [Kind.nodes, List.mem_cons, List.not_mem_nil, or_false] at mem
            tauto
    | deferred seen isDeferred gives =>
      simp only [List.mem_cons, List.not_mem_nil, or_false] at ih
      rcases ih with rfl | rfl | rfl | rfl | rfl | rfl
      all_goals
        obtain rfl := Option.some.inj seen
        cases isDeferred
      obtain ⟨_, gives⟩ := gives
      rw [← Except.ok.inj gives]
      exact .head _

/-- Links with keys that are not in alphabetical order. -/
def linkData : Json := .object [("b", .object [("d", .null), ("c", .null)]), ("a", .null)]

/-- The links are given back, with their keys in order. -/
theorem link_output_eq :
    Preserving linkScope link ∧ ∃ output,
      (validate linkScope link linkData).value = .ok (.parsed output) ∧ output = linkData := by
  have preserving : Preserving linkScope link := by
    constructor
    all_goals
      intro inner reaches layer seen
      have mem := link_nodes reaches
      simp only [List.mem_cons, List.not_mem_nil, or_false] at mem
      rcases mem with rfl | rfl | rfl | rfl | rfl | rfl
      all_goals
        obtain rfl := Option.some.inj seen
        first
          | rfl
          | exact nofun
  have parses : ((validate linkScope link linkData).value.toOption.any fun outcome =>
      outcome matches .parsed _) = true := by decide +kernel
  rcases answer : (validate linkScope link linkData).value with error | output | _ | _ | issues
  case ok.parsed => exact ⟨preserving, output, rfl, output_eq_of_parsed preserving answer⟩
  all_goals
    rw [answer] at parses
    cases parses

/-! ### What is allowed -/

/-- Values of which none repeats an earlier one are distinct, and new after those that were seen. -/
theorem NoRepeat.distinct {seen values : List Json} (h : NoRepeat seen values)
    (wellFormed : ∀ value ∈ values, value.WellFormed) :
    allDistinct values = true ∧ ∀ value ∈ values, Json.among seen value = false := by
  induction values generalizing seen with
  | nil => exact ⟨rfl, nofun⟩
  | cons first rest ih =>
    obtain ⟨new, later⟩ := h
    obtain ⟨wellFormedFirst, wellFormed⟩ := List.forall_mem_cons.1 wellFormed
    obtain ⟨distinct, notSeen⟩ := ih later wellFormed
    have notBefore (value : Json) (mem : value ∈ rest) :
        Json.among seen value = false ∧ first.same value = false := by
      simpa [Json.among] using notSeen value mem
    refine ⟨?_, List.forall_mem_cons.2 ⟨new, fun value mem => (notBefore value mem).1⟩⟩
    rw [allDistinct, distinct, Bool.and_true, Bool.not_eq_true', Json.among, List.any_eq_false]
    intro value mem same
    have same' := Json.same_symm value first (wellFormed value mem) wellFormedFirst same
    rw [(notBefore value mem).2] at same'
    cases same'

theorem Items.exists_output {check : Nat → Json → Json → Prop} {i : Nat}
    {values outputs : List Json} (h : Items check i values outputs) {j : Nat} {value : Json}
    (isItem : values[j]? = some value) : ∃ output, check (i + j) value output := by
  induction h generalizing j with
  | nil => cases isItem
  | cons first _ ih =>
    cases j with
    | zero =>
      obtain rfl := Option.some.inj isItem
      exact ⟨_, first⟩
    | succ j =>
      obtain ⟨output, passes⟩ := ih isItem
      exact ⟨output, by rwa [Nat.add_right_comm] at passes⟩

/-- The entries that are there are passed, and the others may be absent. -/
theorem Properties.exists_output {check : Schema γ → Json → Json → Prop}
    {absence : Schema γ → Except VendorError Absence} {data before after : Json.Fields}
    {entries : List (String × Schema γ)}
    (h : Properties check absence data entries before after) : ∀ entry ∈ entries,
      (∀ value, Table.get? data entry.1 = some value → ∃ output, check entry.2 value output) ∧
      (Table.has data entry.1 = false →
        absence entry.2 = .ok .skip ∨ ∃ value, absence entry.2 = .ok (.fill value)) := by
  induction h with
  | nil => exact nofun
  | present found passed _ ih =>
    refine List.forall_mem_cons.2 ⟨⟨fun value isValue => ?_, fun absent => ?_⟩, ih⟩
    · obtain rfl := Option.some.inj (found.symm.trans isValue)
      exact ⟨_, passed⟩
    · rw [Table.has, found] at absent
      cases absent
  | skipped absent skip _ ih =>
    refine List.forall_mem_cons.2 ⟨⟨fun value isValue => ?_, fun _ => .inl skip⟩, ih⟩
    cases absent.symm.trans isValue
  | filled absent fill _ ih =>
    refine List.forall_mem_cons.2 ⟨⟨fun value isValue => ?_, fun _ => .inr ⟨_, fill⟩⟩, ih⟩
    cases absent.symm.trans isValue

/-- The values that a kind holds itself are well-formed. -/
def Kind.LiteralWellFormed {ν : Type} : Kind γ ν → Prop
  | .literal value => value.WellFormed
  | _ => True

/-- What a structural kind allows is of its type, and its parts are passed. -/
theorem Allows.matches {check : Schema γ → Json → Json → Prop}
    {absence : Schema γ → Except VendorError Absence} {kind : Kind γ (Schema γ)}
    {data output : Json} (literal : kind.LiteralWellFormed) (wellFormed : data.WellFormed)
    (keeps : ∀ element, kind = .set element → ∀ value output, check element value output →
      output = value) (h : Allows scope check absence kind data output) :
    kind.Matches (fun part value => ∃ output, check part value output)
      (fun part => absence part = .ok .skip ∨ ∃ value, absence part = .ok (.fill value)) data := by
  cases kind with
  | string | date =>
    have isString := h.1
    cases data <;> first | rfl | cases isString
  | number =>
    have isNumber := h.1
    cases data <;> first | rfl | cases isNumber
  | boolean =>
    have isBool := h.1
    cases data <;> first | rfl | cases isBool
  | null =>
    have isNull := h.1
    cases data <;> first | rfl | cases isNull
  | bigint =>
    have isInteger := h.1
    cases data with
    | number n =>
      cases n with
      | integer i => exact hasType_integer i
      | float => cases isInteger
    | null | bool | string | array | object => cases isInteger
  | undefined | void | never => cases h
  | literal value => exact Json.same_symm data value wellFormed literal h.1
  | enumeration values => exact h.1
  | instanceOf className =>
    have isInstance := h.1
    by_cases isDate : className = "Date"
    · subst isDate
      have isString : data.isString = true := isInstance
      cases data <;> first | rfl | cases isString
    · rw [if_neg isDate] at isInstance
      rw [Kind.Matches, if_neg isDate]
      cases data <;> first | rfl | cases isInstance
  | object entries =>
    obtain ⟨fields, outputs, rfl, rfl, properties⟩ := h
    refine ⟨fields, rfl, fun entry isLast => ?_⟩
    obtain ⟨present, absent⟩ :=
      properties.exists_output entry ((Table.lastEntries_sublist _).subset isLast)
    refine ⟨present, fun must => ?_⟩
    by_contra missing
    exact must (absent (Bool.eq_false_iff.2 missing))
  | array element =>
    obtain ⟨values, outputs, rfl, rfl, items⟩ := h
    refine ⟨values, rfl, fun item mem => ?_⟩
    obtain ⟨i, isItem⟩ := List.mem_iff_getElem?.1 mem
    exact items.exists_output isItem
  | tuple positions rest =>
    obtain ⟨values, outputs, rfl, rfl, least, most, items⟩ := h
    refine ⟨values, rfl, least, most, fun i item isItem part isPart => ?_⟩
    obtain ⟨output, passes⟩ := items.exists_output isItem
    rw [Nat.zero_add, isPart] at passes
    exact ⟨output, passes⟩
  | set element =>
    obtain ⟨values, outputs, rfl, rfl, items, noRepeat⟩ := h
    rw [items.outputs_eq fun _ => keeps element rfl] at noRepeat
    rw [Json.WellFormed] at wellFormed
    refine ⟨values, rfl, (noRepeat.distinct fun _ => wellFormed.of_mem).1, fun item mem => ?_⟩
    obtain ⟨i, isItem⟩ := List.mem_iff_getElem?.1 mem
    exact items.exists_output isItem
  | record key value | map key value =>
    obtain ⟨fields, outputs, rfl, rfl, entries⟩ := h
    refine ⟨fields, rfl, fun name mem => ?_, fun entry mem => ?_⟩
    · obtain ⟨entry, isEntry, rfl⟩ := List.mem_map.1 mem
      obtain ⟨output, -, related⟩ := exists_right_of_forall₂ entries isEntry
      exact related.2.1
    · obtain ⟨output, -, related⟩ := exists_right_of_forall₂ entries mem
      exact ⟨_, related.2.2⟩
  | union options =>
    obtain ⟨option, mem, passes⟩ := h
    exact ⟨option, mem, output, passes⟩
  | intersection parts => exact h.1
  | promise inner => exact ⟨output, h⟩
  | any | unknown | symbol | function | optional | nullable | defaulted | caught | refined | branded
  | transformed | deferred => trivial

end SchemaBridge.Fluent
