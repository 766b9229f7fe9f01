import SchemaBridge.Proofs.Describe.Answers
import SchemaBridge.Proofs.Describe.Predicates

/-!
# The elements of a described array

What stands after the ordered documents of an array is told by its item documents, and it is told
twice. The validator tries the item documents one after another, on the spot. The adapter answers
with one document: the only item document there is, or alternatives that are built for the occasion.
Both mean the same: whatever the data is, one finds an issue where the other does, and one breaks
where the other does, with the same error.

The two walks stand at different places in the data, and list different issues. So the verdict is
what is compared, and the walk is shown not to depend on the place where it starts.

## Main definitions

* `Describe.SameVerdict` : two findings are broken by the same error, or both list issues, or
  neither.
* `Describe.findingsAt` : what the validator finds about the value at a position of an array.
* `Describe.ElementsAgree` : the values after the ordered documents mean the same to the validator
  and to the adapter.

## Main results

* `Describe.sameVerdict_check` : the verdict does not depend on the accessor chain.
* `Describe.check_alternativesDocument` : what the validator finds about alternatives that were
  built.
* `Describe.elementsAgree` : the elements of an array have one meaning.
-/

namespace SchemaBridge.Describe

/-! ### Verdicts -/

/-- Two findings come to the same: the same error, or both list issues, or neither does. -/
inductive SameVerdict : Findings → Findings → Prop where
  | broken (error : VendorError) : SameVerdict (.error error) (.error error)
  | checked {first second : List VendorIssue} (same : first = [] ↔ second = []) :
      SameVerdict (.ok first) (.ok second)

namespace SameVerdict

variable {first second : Findings}

theorem refl (found : Findings) : SameVerdict found found := by
  cases found with
  | error error => exact .broken error
  | ok issues => exact .checked Iff.rfl

theorem ok_nil_iff (h : SameVerdict first second) : first = .ok [] ↔ second = .ok [] := by
  cases h with
  | broken => exact Iff.rfl
  | checked same => rw [Except.ok.injEq, Except.ok.injEq, same]

theorem error_iff (h : SameVerdict first second) (error : VendorError) :
    first = .error error ↔ second = .error error := by
  cases h with
  | broken => exact Iff.rfl
  | checked => exact iff_of_false nofun nofun

/-- Findings that are put together come to the same if what they are put together from does. -/
theorem append {more more' : Except VendorError (List VendorIssue)} (h : SameVerdict first second)
    (h' : SameVerdict more more') :
    SameVerdict (do return (← first) ++ (← more)) (do return (← second) ++ (← more')) := by
  cases h with
  | broken error => exact .broken error
  | checked same =>
    cases h' with
    | broken error => exact .broken error
    | checked same' =>
      refine .checked ?_
      rw [List.append_eq_nil_iff, List.append_eq_nil_iff, same, same']

/-- An issue is as good as another one. -/
theorem single (issue issue' : VendorIssue) : SameVerdict (.ok [issue]) (.ok [issue']) :=
  .checked (iff_of_false (List.cons_ne_nil _ _) (List.cons_ne_nil _ _))

/-- One issue or none, depending on what is looked at. -/
theorem silentIf (accepted : Bool) (issue issue' : VendorIssue) :
    SameVerdict (.ok (if accepted then [] else [issue]))
      (.ok (if accepted then [] else [issue'])) := by
  cases accepted
  · exact single issue issue'
  · exact refl _

/-- One issue or none, depending on what comes before. -/
theorem otherwise (accepted : Except VendorError Bool) (issue issue' : VendorIssue) :
    SameVerdict (do if ← accepted then return [] else return [issue])
      (do if ← accepted then return [] else return [issue']) := by
  rcases accepted with error | accepted
  · exact .broken error
  · cases accepted
    · exact single issue issue'
    · exact refl _

end SameVerdict

/-! ### The place of a value -/

section Place

variable {ι κ : Type} {chain chain' : List Char}

theorem sameVerdict_recordIssues {child : Json → List Char → Findings}
    (same : ∀ value chain chain', SameVerdict (child value chain) (child value chain'))
    (fields : Json.Fields) :
    SameVerdict (recordIssues child chain fields) (recordIssues child chain' fields) := by
  induction fields with
  | nil => exact .refl _
  | cons entry rest ih => exact (same ..).append ih

theorem sameVerdict_keyIssues {child : ι → Json → List Char → Findings}
    (same : ∀ part value chain chain',
      SameVerdict (child part value chain) (child part value chain'))
    (mayMiss : ι → Bool) (data : Json.Fields) (parts : List (String × ι)) :
    SameVerdict (keyIssues child mayMiss data chain parts)
      (keyIssues child mayMiss data chain' parts) := by
  induction parts with
  | nil => exact .refl _
  | cons entry rest ih =>
    obtain ⟨key, part⟩ := entry
    rw [keyIssues, keyIssues]
    cases Table.get? data key with
    | some value => exact (same ..).append ih
    | none => exact (SameVerdict.silentIf (mayMiss part) _ _).append ih

/-- Whether some document accepts a value only depends on the verdicts of the documents. -/
theorem acceptedByAny_congr {child child' : ι → Findings}
    (same : ∀ part, SameVerdict (child part) (child' part)) (parts : List ι) :
    acceptedByAny child parts = acceptedByAny child' parts := by
  induction parts with
  | nil => rfl
  | cons part rest ih =>
    rw [acceptedByAny, acceptedByAny, ih]
    have verdict := same part
    generalize child part = found, child' part = found' at verdict ⊢
    cases verdict with
    | broken => rfl
    | @checked first second same =>
      have empty : first.isEmpty = second.isEmpty := by
        rw [Bool.eq_iff_iff, List.isEmpty_iff, List.isEmpty_iff, same]
      simp only [bind, Except.bind, empty]

theorem acceptedByAny_map (build : κ → ι) (child : ι → Findings) (parts : List κ) :
    acceptedByAny child (parts.map build) =
      acceptedByAny (fun part => child (build part)) parts := by
  induction parts with
  | nil => rfl
  | cons part rest ih => rw [List.map_cons, acceptedByAny, acceptedByAny, ih]

/-- A value that one of several documents must accept has issues unless one of them has none. -/
theorem sameVerdict_candidateIssues {child child' : ι → Findings}
    (same : ∀ part, SameVerdict (child part) (child' part)) (parts : List ι) :
    SameVerdict (candidateIssues child chain parts) (candidateIssues child' chain' parts) := by
  unfold candidateIssues
  split
  · exact same _
  · rw [acceptedByAny_congr same]
    exact .otherwise ..

theorem sameVerdict_itemIssues {child : ι → Json → List Char → Findings}
    (same : ∀ part value chain chain',
      SameVerdict (child part value chain) (child part value chain'))
    (closed : Bool) (ordered items : List ι) (position : Nat) (value : Json) :
    SameVerdict (itemIssues child closed ordered items chain position value)
      (itemIssues child closed ordered items chain' position value) := by
  rw [itemIssues, itemIssues]
  cases ordered[position]? with
  | some part => exact same ..
  | none =>
    dsimp only
    split
    · cases closed
      · exact .refl _
      · exact .single _ _
    · exact sameVerdict_candidateIssues (fun part => same part ..) items

theorem sameVerdict_arrayIssues {item item' : Nat → Json → Findings}
    (same : ∀ position value, SameVerdict (item position value) (item' position value))
    (start : Nat) (values : List Json) :
    SameVerdict (arrayIssues item start values) (arrayIssues item' start values) := by
  induction values generalizing start with
  | nil => exact .refl _
  | cons value rest ih => exact (same ..).append (ih _)

end Place

section Document

variable {doc : Json} {chain chain' : List Char}

theorem ruleIssues_eq_nil_iff (data : Json) :
    ruleIssues doc data chain = [] ↔ ruleIssues doc data chain' = [] := by
  unfold ruleIssues
  cases size? data with
  | none => exact Iff.rfl
  | some size =>
    simp only [List.filterMap_eq_nil_iff, Option.map_eq_none_iff]

section Step

variable {child : Within doc → Json → List Char → Findings}
  (same : ∀ part value chain chain', SameVerdict (child part value chain) (child part value chain'))
include same

theorem sameVerdict_partIssues (data : Json) :
    SameVerdict (partIssues doc child data chain) (partIssues doc child data chain') := by
  unfold partIssues
  split
  · split
    · cases recordRule? doc with
      | error error => exact .broken error
      | ok rule? =>
        cases rule? with
        | none => exact .refl _
        | some rule => exact sameVerdict_recordIssues (same rule) _
    · cases keyDocuments doc with
      | error error => exact .broken error
      | ok parts => exact sameVerdict_keyIssues same _ _ parts
  · cases documents doc "ordered" with
    | error error => exact .broken error
    | ok ordered =>
      cases documents doc "items" with
      | error error => exact .broken error
      | ok items =>
        have arity (shorter : Prop) [Decidable shorter] (issue issue' : VendorIssue) :
            SameVerdict (.ok (if shorter then [issue] else []))
              (.ok (if shorter then [issue'] else [])) := by
          split
          · exact .single issue issue'
          · exact .refl _
        exact (sameVerdict_arrayIssues (sameVerdict_itemIssues same _ ordered items) 0 _).append
          (arity _ _ _)
  · cases alternatives doc with
    | error error => exact .broken error
    | ok parts =>
      change SameVerdict (do if ← acceptedByAny _ parts then return [] else return [_])
        (do if ← acceptedByAny _ parts then return [] else return [_])
      rw [acceptedByAny_congr fun part => same part _ chain chain']
      exact .otherwise ..
  · exact .refl _

theorem sameVerdict_step (data : Json) :
    SameVerdict (step doc child data chain) (step doc child data chain') := by
  unfold step
  split
  · exact .single _ _
  · split
    · exact .refl _
    · split
      · exact .single _ _
      · dsimp only
        split
        · exact .refl _
        · exact .single _ _
        · have rules :
              SameVerdict (.ok (ruleIssues doc data chain)) (.ok (ruleIssues doc data chain')) :=
            .checked (ruleIssues_eq_nil_iff data)
          exact rules.append (sameVerdict_partIssues same data)

end Step

/-- Whether the validator has issues with a value, or breaks, does not depend on where the value
stands. -/
theorem sameVerdict_check (doc data : Json) (chain chain' : List Char) :
    SameVerdict (check doc data chain) (check doc data chain') := by
  -- The induction is on the document; the accessor chains of its parts differ as well.
  induction doc, data, chain using check.induct generalizing chain' with
  | case1 doc data chain ih =>
    rw [check, check]
    exact sameVerdict_step ih data

end Document

/-! ### Alternatives that were built -/

section Alternatives

/-- Alternatives that all state a document are read. -/
theorem mapM_alternative_isOk {doc : Json} (all : List (Within doc))
    (stated : ∀ part ∈ all, (part.1.get? "schema").isSome = true) :
    ∃ parts, all.mapM alternative = Except.ok parts := by
  induction all with
  | nil => exact ⟨[], rfl⟩
  | cons part rest ih =>
    obtain ⟨first, others⟩ := List.forall_mem_cons.1 stated
    obtain ⟨parts, read⟩ := ih others
    rw [← field?_map_val, Option.isSome_map] at first
    obtain ⟨schema, found⟩ := Option.isSome_iff_exists.1 first
    exact ⟨Within.trans schema :: parts, by rw [List.mapM_cons, alternative, found, read]; rfl⟩

/-- The alternatives of a document that was built for several documents are these. -/
theorem alternatives_alternativesDocument (docs : List Json) :
    ∃ parts, alternatives (alternativesDocument docs) = .ok parts ∧
      parts.map Subtype.val = docs := by
  obtain ⟨all, read⟩ : ∃ all, documents (alternativesDocument docs) "matches" = .ok all := ⟨_, rfl⟩
  have same := documents_val read
  have listed : partsOf (alternativesDocument docs) "matches" =
      docs.map fun doc => .object [("schema", doc)] := rfl
  obtain ⟨parts, found⟩ := mapM_alternative_isOk all fun part mem => by
    obtain ⟨doc, -, isPart⟩ := List.mem_map.1 (listed ▸ same ▸ List.mem_map_of_mem mem)
    rw [← isPart]
    rfl
  have found : alternatives (alternativesDocument docs) = .ok parts := by
    rw [alternatives, read]
    exact found
  refine ⟨parts, found, ?_⟩
  rw [alternatives_val found, alternativesOf, listed, List.filterMap_map]
  exact List.filterMap_some

/-- The validator accepts what one of the alternatives accepts, and tries them in order. -/
theorem check_alternativesDocument (docs : List Json) (value : Json) (chain : List Char) :
    check (alternativesDocument docs) value chain = do
      if ← acceptedByAny (fun doc => check doc value chain) docs then return []
      else return [objection chain "does not match any of the allowed types"] := by
  obtain ⟨parts, found, same⟩ := alternatives_alternativesDocument docs
  have tried := acceptedByAny_map Subtype.val (fun doc => check doc value chain) parts
  rw [same] at tried
  have noRules : ruleIssues (alternativesDocument docs) value chain = [] := by
    unfold ruleIssues
    cases size? value <;> rfl
  have walked : partIssues (alternativesDocument docs) (fun part => check part.1) value chain = do
      if ← acceptedByAny (fun part => check part.1 value chain) parts then return []
      else return [objection chain "does not match any of the allowed types"] := by
    change (do
      if ← acceptedByAny (fun part : Within (alternativesDocument docs) => check part.1 value chain)
        (← alternatives (alternativesDocument docs)) then return []
      else return [objection chain "does not match any of the allowed types"]) = _
    rw [found]
    rfl
  have looks : LooksInto (alternativesDocument docs) value := ⟨rfl, rfl, rfl, rfl⟩
  rw [looks.check_eq, tried, walked, noRules]
  simp only [List.nil_append, bind_pure]

end Alternatives

/-! ### Elements -/

section Elements

variable {doc value : Json} {chain : List Char} {position : Nat} {ordered items : List (Within doc)}

/-- What the validator finds about the value at a position of an array. -/
def findingsAt (doc : Json) (chain : List Char) (position : Nat) (value : Json) : Findings := do
  itemIssues (fun part => check part.1) (describesTuple doc) (← documents doc "ordered")
    (← documents doc "items") chain position value

/-- What comes of validating a value is told by findings: both have no issue, or break by the same
error. -/
structure Settles (found : Findings) (verdict : Except VendorError VendorOutcome) : Prop where
  accepted : found = .ok [] ↔ verdict = .ok .accepted
  broken : ∀ error, found = .error error ↔ verdict = .error error

/-- The values after the ordered documents of an array mean the same to the validator and to the
adapter. -/
structure ElementsAgree {γ : Type} (node : Schema γ) (doc : Json)
    (ordered items : List (Within doc)) : Prop where
  /-- The validator takes the values of an array one by one. -/
  walks : ∀ values chain, partIssues doc (fun part => check part.1) (.array values) chain = do
    let found ← arrayIssues (findingsAt doc chain) 0 values
    return found ++ if values.length < ordered.length then
      [objection chain ("must contain " ++ toString ordered.length ++ " items")] else []
  /-- If it looks into an array, it finds what the rules say and what it comes upon on that walk. -/
  checks : ∀ values, LooksInto doc (.array values) → ∀ chain, check doc (.array values) chain = do
    let found ← partIssues doc (fun part => check part.1) (.array values) chain
    return ruleIssues doc (.array values) chain ++ found
  /-- Then it accepts the array if the rules hold, no ordered document is left over, and there is
  nothing to find at any position; and only then. -/
  accepts : ∀ values, LooksInto doc (.array values) →
    (validate doc (.array values) = .ok .accepted ↔ ruleIssues doc (.array values) [] = [] ∧
      ordered.length ≤ values.length ∧ ∀ (position : Nat) value,
        values[position]? = some value → findingsAt doc [] position value = .ok [])
  /-- Without item documents the adapter has no element, and a tuple ends. -/
  unlisted : items = [] → (∀ supply, adapter.element node supply = (.ok none, supply)) ∧
    ∀ chain position value, ordered.length ≤ position → findingsAt doc chain position value =
      .ok (if describesTuple doc then [complaint (Path.appendIndex chain position) "is not allowed"]
        else [])
  /-- With item documents the adapter has an element that settles what the validator finds. -/
  listed : items ≠ [] → ∀ supply, ∃ element,
    adapter.element node supply = (.ok (some element), supply + 1) ∧
      ∀ chain position value, ordered.length ≤ position →
        Settles (findingsAt doc chain position value) (adapter.validate element value).value

/-- The outcome of the validator settles every finding with the verdict of the document. -/
theorem settles_validate {found : Findings} (h : SameVerdict found (check doc value [])) :
    Settles found (validate doc value) where
  accepted := h.ok_nil_iff.trans validate_eq_accepted_iff.symm
  broken error := by
    rw [h.error_iff, validate]
    cases check doc value [] with
    | error other => exact ⟨fun same => same ▸ rfl, fun same => Except.error.inj same ▸ rfl⟩
    | ok => constructor <;> intro failed <;> cases failed

/-- The item documents, tried one after another, come to the same as the one document of the
elements. -/
theorem sameVerdict_candidateIssues_element {element : Json}
    (isElement : elementOf? doc = some element) (hasItems : documents doc "items" = .ok items) :
    SameVerdict (candidateIssues (fun part => check part.1 value chain) chain items)
      (check element value []) := by
  rw [elementOf?, ← documents_val hasItems] at isElement
  rcases items with _ | ⟨first, _ | ⟨second, rest⟩⟩
  · cases isElement
  · obtain rfl := Option.some.inj isElement
    exact sameVerdict_check first.1 value chain []
  · obtain rfl := Option.some.inj isElement
    have tried :=
      acceptedByAny_map Subtype.val (fun doc => check doc value []) (first :: second :: rest)
    have several (single : Within doc) : first :: second :: rest ≠ [single] := fun alone =>
      List.cons_ne_nil _ _ (List.cons.inj alone).2
    rw [check_alternativesDocument, ← List.map_cons, tried, candidateIssues.eq_2 _ _ _ several,
      acceptedByAny_congr fun part : Within doc => sameVerdict_check part.1 value chain []]
    exact .otherwise ..

/-- What the validator finds after the ordered documents. -/
theorem findingsAt_of_beyond (hasOrdered : documents doc "ordered" = .ok ordered)
    (hasItems : documents doc "items" = .ok items) (beyond : ordered.length ≤ position) :
    findingsAt doc chain position value =
      if items.isEmpty then .ok (if describesTuple doc
        then [complaint (Path.appendIndex chain position) "is not allowed"] else [])
      else candidateIssues (fun part => check part.1 value (Path.appendIndex chain position))
        (Path.appendIndex chain position) items := by
  rw [findingsAt, hasOrdered, hasItems]
  change itemIssues _ _ ordered items chain position value = _
  rw [itemIssues, List.getElem?_eq_none beyond]
  rfl

/-- The validator takes the values of an array one by one. -/
theorem partIssues_array (isArray : type? doc = some "array")
    (hasOrdered : documents doc "ordered" = .ok ordered)
    (hasItems : documents doc "items" = .ok items) (values : List Json) (chain : List Char) :
    partIssues doc (fun part => check part.1) (.array values) chain = do
      let found ← arrayIssues (findingsAt doc chain) 0 values
      return found ++ if values.length < ordered.length then
        [objection chain ("must contain " ++ toString ordered.length ++ " items")] else [] := by
  have word : typeWord doc = "array" := by rw [typeWord, isArray]; rfl
  unfold partIssues findingsAt
  simp only [word, hasOrdered, hasItems]
  rfl

/-- An array that the validator looks into is accepted if its rules hold, its length is right, and
there is nothing to find at any position. -/
theorem validate_array_iff (isArray : type? doc = some "array")
    (hasOrdered : documents doc "ordered" = .ok ordered)
    (hasItems : documents doc "items" = .ok items) {values : List Json}
    (looks : LooksInto doc (.array values)) :
    validate doc (.array values) = .ok .accepted ↔ ruleIssues doc (.array values) [] = [] ∧
      ordered.length ≤ values.length ∧ ∀ (position : Nat) value,
        values[position]? = some value → findingsAt doc [] position value = .ok [] := by
  have positions : arrayIssues (findingsAt doc []) 0 values = .ok [] ↔ ∀ (position : Nat) value,
      values[position]? = some value → findingsAt doc [] position value = .ok [] := by
    rw [arrayIssues_eq_nil_iff]
    simp only [Nat.zero_add]
  have arity : (if values.length < ordered.length then
      [objection [] ("must contain " ++ toString ordered.length ++ " items")] else []) = [] ↔
      ordered.length ≤ values.length := by
    split
    next few => exact iff_of_false (List.cons_ne_nil _ _) (Nat.not_le_of_lt few)
    next enough => exact iff_of_true rfl (Nat.le_of_not_lt enough)
  rw [validate_eq_accepted_iff, looks.check_eq, partIssues_array isArray hasOrdered hasItems,
    ← positions, ← arity]
  cases arrayIssues (findingsAt doc []) 0 values with
  | error error => exact iff_of_false nofun fun ⟨_, _, found⟩ => nomatch found
  | ok found =>
    change Except.ok (_ ++ (found ++ _)) = Except.ok [] ↔ _
    rw [Except.ok.injEq, Except.ok.injEq, List.append_eq_nil_iff, List.append_eq_nil_iff]
    exact and_congr_right' and_comm

variable {γ : Type} {node : Schema γ}

/-- The node of the elements of an array. -/
theorem element_run (described : node.payload = .description doc)
    (hasItems : documents doc "items" = .ok items) (supply : Nat) :
    adapter.element node supply = match elementOf? doc with
      | some element => (.ok (some (Schema.ofDescription element supply).1), supply + 1)
      | none => (.ok none, supply) := by
  obtain ⟨element?, found⟩ : ∃ element?, elementDocument? doc = .ok element? := by
    rw [elementDocument?, hasItems]
    rcases items with _ | ⟨first, _ | ⟨second, rest⟩⟩ <;> exact ⟨_, rfl⟩
  change answer? (do elementDocument? (← documentOf node)) supply = _
  rw [documentOf, described]
  change answer? (elementDocument? doc) supply = _
  rw [found, ← elementDocument?_eq found]
  cases element? <;> rfl

/-- The elements of an array have one meaning: item documents that the validator tries on the spot
come to the same as the document that the adapter answers with. -/
theorem elementsAgree (described : node.payload = .description doc)
    (isArray : type? doc = some "array") (hasOrdered : documents doc "ordered" = .ok ordered)
    (hasItems : documents doc "items" = .ok items) : ElementsAgree node doc ordered items where
  walks := partIssues_array isArray hasOrdered hasItems
  checks _ looks := looks.check_eq
  accepts _ looks := validate_array_iff isArray hasOrdered hasItems looks
  unlisted noItems := by
    subst noItems
    have noElement : elementOf? doc = none := by
      rw [elementOf?, ← documents_val hasItems]
      rfl
    refine ⟨fun supply => ?_, fun chain position value beyond => ?_⟩
    · rw [element_run described hasItems, noElement]
    · exact findingsAt_of_beyond hasOrdered hasItems beyond
  listed others supply := by
    obtain ⟨element, isElement⟩ : ∃ element, elementOf? doc = some element := by
      rw [elementOf?, ← documents_val hasItems]
      rcases items with _ | ⟨first, _ | ⟨second, rest⟩⟩
      · exact absurd rfl others
      · exact ⟨_, rfl⟩
      · exact ⟨_, rfl⟩
    refine ⟨(Schema.ofDescription element supply).1, ?_, fun chain position value beyond => ?_⟩
    · rw [element_run described hasItems, isElement]
    · rw [findingsAt_of_beyond hasOrdered hasItems beyond, if_neg (mt List.isEmpty_iff.1 others)]
      exact settles_validate (sameVerdict_candidateIssues_element isElement hasItems)

end Elements

/-- An array of a text and then numbers or truth values. -/
def mixedTail : Json :=
  .object [("type", .string "array"), ("ordered", .array [.object [("type", .string "string")]]),
    ("items", .array [.object [("type", .string "number")], .object [("type", .string "boolean")]])]

/-- What may follow the text means the same on the spot and in the alternatives that are built. -/
theorem mixedTail_elementsAgree : (nodeOf mixedTail).payload = .description mixedTail ∧
    type? mixedTail = some "array" ∧ ∃ ordered items, documents mixedTail "ordered" = .ok ordered ∧
      documents mixedTail "items" = .ok items ∧ ordered.length = 1 ∧ items.length = 2 ∧
      ElementsAgree (nodeOf mixedTail) mixedTail ordered items :=
  ⟨rfl, rfl, _, _, rfl, rfl, rfl, rfl, elementsAgree rfl rfl rfl rfl⟩

end SchemaBridge.Describe
