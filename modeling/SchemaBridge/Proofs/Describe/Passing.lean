import Mathlib.Tactic.ByContra
import Mathlib.Tactic.SplitIfs
import SchemaBridge.Describe.Adapter

/-!
# Data that the validator of descriptions passes

What a run of the validator without an issue says about the data, told without the run and without
the sizes of documents: a value is allowed, or it has the type of the document, keeps its rules, and
its parts are passed by the documents inside. The documents inside are told by the values of a few
keys, so that what is said only depends on these keys.

## Main definitions

* `Describe.partsOf`, `Describe.keysOf`, `Describe.alternativesOf`, `Describe.ruleOf?` : the
  documents inside a document.
* `Describe.Passes` : the validator has no issue with a value.
* `Describe.Suits` : a value suits what a document says.
* `Describe.LooksInto` : the validator goes on to the rules and the parts of a value.

## Main results

* `Describe.LooksInto.check_eq` : what the validator finds when it looks into a value.
* `Describe.Passes.suits` : data that the validator passes suits the document.
-/

namespace SchemaBridge.Describe

/-- What comes to an answer in two parts has come to one in the first. -/
theorem exists_of_bind_eq_ok {α β : Type} {found : Except VendorError α}
    {next : α → Except VendorError β} {answer : β} (h : (found >>= next) = .ok answer) :
    ∃ a, found = .ok a ∧ next a = .ok answer := by
  cases found with
  | error => cases h
  | ok a => exact ⟨a, rfl, h⟩

/-! ### Documents inside a document -/

/-- The documents in an array. -/
def partsOf (doc : Json) (field : String) : List Json :=
  ((doc.get? field).bind Json.asArray?).getD []

/-- The documents of the keys of an object. -/
def keysOf (doc : Json) : Json.Fields := ((doc.get? "keys").bind Json.asObject?).getD []

/-- The documents of the alternatives. -/
def alternativesOf (doc : Json) : List Json := (partsOf doc "matches").filterMap (·.get? "schema")

/-- The document of the values of a record. -/
def ruleOf? (doc : Json) : Option Json := (partsOf doc "patterns").head?.bind (·.get? "rule")

variable {doc data : Json}

theorem documents_val {field : String} {parts : List (Within doc)}
    (h : documents doc field = .ok parts) : parts.map Subtype.val = partsOf doc field := by
  have seen := field?_map_val doc field
  rw [documents, part?] at h
  cases found : field? doc field with
  | none =>
    rw [found] at h seen
    obtain rfl := Except.ok.inj h
    rw [partsOf, ← seen]
    rfl
  | some part =>
    rw [found] at h seen
    obtain ⟨value, small⟩ := part
    rw [partsOf, ← seen]
    cases value with
    | array items =>
      obtain rfl := Except.ok.inj h
      simp [itemsOf, Within.trans, Json.asArray?]
    | null | bool | number | string | object => cases h

theorem keyDocuments_val {parts : List (String × Within doc)}
    (h : keyDocuments doc = .ok parts) :
    parts.map (fun entry => (entry.1, entry.2.1)) = keysOf doc := by
  have seen := field?_map_val doc "keys"
  rw [keyDocuments, part?] at h
  cases found : field? doc "keys" with
  | none =>
    rw [found] at h seen
    obtain rfl := Except.ok.inj h
    rw [keysOf, ← seen]
    rfl
  | some part =>
    rw [found] at h seen
    obtain ⟨value, small⟩ := part
    rw [keysOf, ← seen]
    cases value with
    | object fields =>
      obtain rfl := Except.ok.inj h
      rw [entriesOf, List.map_map, List.map_map]
      exact List.attach_map_subtype_val fields
    | null | bool | number | string | array => cases h

/-- An alternative that has a document. -/
private theorem alternative_val {part schema : Within doc} (h : alternative part = .ok schema) :
    part.1.get? "schema" = some schema.1 := by
  have seen := field?_map_val part.1 "schema"
  rw [alternative] at h
  cases found : field? part.1 "schema" with
  | none =>
    rw [found] at h
    cases h
  | some inner =>
    rw [found] at h seen
    obtain rfl := Except.ok.inj h
    exact seen.symm

/-- Alternatives that all have a document. -/
private theorem mapM_alternative {all : List (Within doc)} {parts : List (Within doc)}
    (h : all.mapM alternative = Except.ok parts) :
    parts.map Subtype.val = (all.map Subtype.val).filterMap (·.get? "schema") := by
  induction all generalizing parts with
  | nil =>
    obtain rfl := Except.ok.inj h
    rfl
  | cons first rest ih =>
    rw [List.mapM_cons] at h
    obtain ⟨schema, isFirst, h⟩ := exists_of_bind_eq_ok h
    obtain ⟨others, isRest, h⟩ := exists_of_bind_eq_ok h
    obtain rfl := Except.ok.inj h
    rw [List.map_cons, List.map_cons, List.filterMap_cons, alternative_val isFirst, ih isRest]

theorem alternatives_val {parts : List (Within doc)} (h : alternatives doc = .ok parts) :
    parts.map Subtype.val = alternativesOf doc := by
  obtain ⟨all, listed, each⟩ := exists_of_bind_eq_ok h
  rw [alternativesOf, ← documents_val listed]
  exact mapM_alternative each

theorem leadingPattern?_val {part : Option (Within doc)} (h : leadingPattern? doc = .ok part) :
    part.map Subtype.val = (partsOf doc "patterns").head? := by
  obtain ⟨all, listed, first⟩ := exists_of_bind_eq_ok h
  obtain rfl := Except.ok.inj first
  rw [← documents_val listed, List.head?_map]

theorem recordRule?_val {part : Option (Within doc)} (h : recordRule? doc = .ok part) :
    part.map Subtype.val = ruleOf? doc := by
  obtain ⟨first, leading, isRule⟩ := exists_of_bind_eq_ok h
  obtain rfl := Except.ok.inj isRule
  rw [ruleOf?, ← leadingPattern?_val leading]
  cases first with
  | none => rfl
  | some pattern =>
    rw [Option.map_some, Option.bind_some, Option.bind_some, Option.map_map,
      ← field?_map_val pattern.1 "rule"]
    rfl

/-! ### What passes -/

/-- The validator has no issue with a value, wherever it stands. -/
def Passes (doc data : Json) : Prop := ∃ chain, check doc data chain = .ok []

/-- The item of an array at a position is passed: by the ordered document there, and after these by
one of the item documents. Without item documents a tuple ends. -/
def ItemPasses (doc : Json) (position : Nat) (value : Json) : Prop :=
  match (partsOf doc "ordered")[position]? with
  | some part => Passes part value
  | none => partsOf doc "items" = [] ∧ describesTuple doc = false ∨
      ∃ part ∈ partsOf doc "items", Passes part value

/-- The parts of a value are passed by the documents inside a document. -/
structure PartsPass (doc data : Json) : Prop where
  record : typeWord doc = "object" → describesRecord doc = true → ∀ fields, data = .object fields →
    ∀ rule ∈ ruleOf? doc, ∀ entry ∈ fields, Passes rule entry.2
  keys : typeWord doc = "object" → describesRecord doc = false → ∀ fields, data = .object fields →
    ∀ entry ∈ keysOf doc,
      (∀ value, Table.get? fields entry.1 = some value → Passes entry.2 value) ∧
        (Table.has fields entry.1 = false → mayBeAbsent entry.2 = true ∨ hasDefault entry.2 = true)
  items : typeWord doc = "array" → ∀ values, data = .array values →
    (partsOf doc "ordered").length ≤ values.length ∧
      ∀ (position : Nat) value, values[position]? = some value → ItemPasses doc position value
  alternatives : typeWord doc = "alternatives" → ∃ part ∈ alternativesOf doc, Passes part data

/-- A value is of the type of a document, keeps its rules, and its parts are passed. -/
structure Fits (doc data : Json) : Prop where
  notExclusive : isExclusive doc = false
  isType : hasType? (typeWord doc) data = some true
  rules : ∀ size ∈ size? data, ∀ rule ∈ Describe.rules doc, broken? size rule = none
  parts : PartsPass doc data

/-- A value suits what a document says: it is allowed, or it fits. -/
structure Suits (doc data : Json) : Prop where
  notForbidden : forbidsPresence doc = false
  fits : Json.among (allowed doc) data = true ∨ Fits doc data

/-! ### Runs without an issue -/

variable {ι : Type} {chain : List Char}

/-- Findings that are put together from two are none if neither has any, and only then. -/
theorem append_eq_nil_iff {first : Findings} {rest : Except VendorError (List VendorIssue)} :
    (do return (← first) ++ (← rest)) = Except.ok ([] : List VendorIssue) ↔
      first = .ok [] ∧ rest = .ok [] := by
  constructor
  · intro h
    obtain ⟨found, isFirst, h⟩ := exists_of_bind_eq_ok h
    obtain ⟨others, isRest, h⟩ := exists_of_bind_eq_ok h
    obtain ⟨rfl, rfl⟩ := List.append_eq_nil_iff.1 (Except.ok.inj h)
    exact ⟨isFirst, isRest⟩
  · rintro ⟨rfl, rfl⟩
    rfl

theorem passes_of_recordIssues {child : Json → List Char → Findings} {fields : Json.Fields}
    (h : recordIssues child chain fields = .ok []) :
    ∀ entry ∈ fields, ∃ chain, child entry.2 chain = .ok [] := by
  induction fields with
  | nil => exact nofun
  | cons first rest ih =>
    obtain ⟨key, value⟩ := first
    obtain ⟨found, others⟩ := append_eq_nil_iff.1 h
    exact List.forall_mem_cons.2 ⟨⟨_, found⟩, ih others⟩

theorem passes_of_keyIssues {child : ι → Json → List Char → Findings} {mayMiss : ι → Bool}
    {data : Json.Fields} {parts : List (String × ι)}
    (h : keyIssues child mayMiss data chain parts = .ok []) : ∀ entry ∈ parts,
      (∀ value, Table.get? data entry.1 = some value →
        ∃ chain, child entry.2 value chain = .ok []) ∧
      (Table.has data entry.1 = false → mayMiss entry.2 = true) := by
  induction parts with
  | nil => exact nofun
  | cons first rest ih =>
    obtain ⟨key, part⟩ := first
    rw [keyIssues] at h
    cases isThere : Table.get? data key with
    | some value =>
      rw [isThere] at h
      obtain ⟨found, others⟩ := append_eq_nil_iff.1 h
      refine List.forall_mem_cons.2 ⟨⟨fun value' isValue => ?_, fun absent => ?_⟩, ih others⟩
      · obtain rfl := Option.some.inj (isThere.symm.trans isValue)
        exact ⟨_, found⟩
      · rw [Table.has, isThere] at absent
        cases absent
    | none =>
      rw [isThere] at h
      obtain ⟨found, others⟩ := append_eq_nil_iff.1 h
      refine List.forall_mem_cons.2 ⟨⟨fun value isValue => ?_, fun _ => ?_⟩, ih others⟩
      · cases isThere.symm.trans isValue
      · by_contra must
        rw [if_neg must] at found
        cases found

theorem exists_of_acceptedByAny {child : ι → Findings} {parts : List ι}
    (h : acceptedByAny child parts = .ok true) : ∃ part ∈ parts, child part = .ok [] := by
  induction parts with
  | nil => cases h
  | cons first rest ih =>
    obtain ⟨issues, found, others⟩ := exists_of_bind_eq_ok h
    cases issues with
    | nil => exact ⟨first, List.mem_cons_self, found⟩
    | cons =>
      obtain ⟨part, mem, passes⟩ := ih others
      exact ⟨part, List.mem_cons_of_mem _ mem, passes⟩

/-- Where one issue is reported unless some document accepts the value, some document accepts it. -/
private theorem exists_of_accepted {child : ι → Findings} {parts : List ι} {issue : VendorIssue}
    (h : (do if ← acceptedByAny child parts then return [] else return [issue]) =
      (Except.ok [] : Findings)) : ∃ part ∈ parts, child part = .ok [] := by
  obtain ⟨some, accepted, h⟩ := exists_of_bind_eq_ok h
  cases some with
  | true => exact exists_of_acceptedByAny accepted
  | false => cases h

theorem exists_of_candidateIssues {child : ι → Findings} {parts : List ι}
    (h : candidateIssues child chain parts = .ok []) : ∃ part ∈ parts, child part = .ok [] := by
  unfold candidateIssues at h
  split at h
  · exact ⟨_, List.mem_singleton_self _, h⟩
  · exact exists_of_accepted h

/-- An array has no issues if its items have none, and only then. -/
theorem arrayIssues_eq_nil_iff {item : Nat → Json → Findings} {values : List Json} {start : Nat} :
    arrayIssues item start values = .ok [] ↔ ∀ (position : Nat) value,
      values[position]? = some value → item (start + position) value = .ok [] := by
  induction values generalizing start with
  | nil => exact iff_of_true rfl nofun
  | cons first rest ih =>
    rw [arrayIssues, append_eq_nil_iff, ih]
    constructor
    · rintro ⟨found, others⟩ position value isItem
      cases position with
      | zero =>
        obtain rfl := Option.some.inj isItem
        exact found
      | succ position =>
        have later := others position value isItem
        rwa [Nat.add_right_comm] at later
    · refine fun all => ⟨all 0 first rfl, fun position value isItem => ?_⟩
      rw [Nat.add_right_comm]
      exact all (position + 1) value isItem

/-- The document at its position, or one of the item documents, passes an item of which the
validator has no issue. -/
theorem itemPasses_of_itemIssues {ordered items : List (Within doc)} {position : Nat} {value : Json}
    (listed : documents doc "ordered" = .ok ordered) (others : documents doc "items" = .ok items)
    (h : itemIssues (fun part => check part.1) (describesTuple doc) ordered items chain position
      value = .ok []) : ItemPasses doc position value := by
  rw [itemIssues] at h
  unfold ItemPasses
  rw [← documents_val listed, ← documents_val others, List.getElem?_map]
  cases isOrdered : ordered[position]? with
  | some part =>
    rw [isOrdered] at h
    exact ⟨_, h⟩
  | none =>
    rw [isOrdered] at h
    dsimp only at h
    cases items with
    | nil =>
      refine .inl ⟨rfl, Bool.eq_false_iff.2 fun closed => ?_⟩
      rw [closed] at h
      cases h
    | cons first rest =>
      obtain ⟨part, mem, passes⟩ := exists_of_candidateIssues h
      exact .inr ⟨part.1, List.mem_map_of_mem mem, _, passes⟩

/-- The documents inside pass the parts of a value of which the validator has no issue. -/
theorem partsPass_of_partIssues
    (h : partIssues doc (fun part => check part.1) data chain = .ok []) : PartsPass doc data where
  record isObject isRecord fields same := by
    subst same
    unfold partIssues at h
    simp only [isObject, isRecord, if_true] at h
    obtain ⟨rule?, found, each⟩ := exists_of_bind_eq_ok h
    intro rule isRule entry mem
    rw [← recordRule?_val found] at isRule
    obtain ⟨rule, rfl, rfl⟩ := Option.map_eq_some_iff.1 isRule
    exact passes_of_recordIssues each entry mem
  keys isObject notRecord fields same := by
    subst same
    unfold partIssues at h
    simp only [isObject, notRecord, Bool.false_eq_true, if_false] at h
    obtain ⟨parts, found, each⟩ := exists_of_bind_eq_ok h
    rw [← keyDocuments_val found]
    intro _ mem
    obtain ⟨entry, isPart, rfl⟩ := List.mem_map.1 mem
    obtain ⟨present, absent⟩ := passes_of_keyIssues each entry isPart
    exact ⟨present, fun missing => Bool.or_eq_true_iff.1 (absent missing)⟩
  items isArray values same := by
    subst same
    unfold partIssues at h
    simp only [isArray] at h
    obtain ⟨ordered, listed, h⟩ := exists_of_bind_eq_ok h
    obtain ⟨items, others, h⟩ := exists_of_bind_eq_ok h
    obtain ⟨passed, enough⟩ := (@append_eq_nil_iff _ (.ok (if values.length < ordered.length
      then [objection chain ("must contain " ++ toString ordered.length ++ " items")]
      else []))).1 h
    refine ⟨?_, fun position value isItem => ?_⟩
    · rw [← documents_val listed, List.length_map]
      by_contra few
      rw [if_pos (Nat.lt_of_not_le few)] at enough
      cases enough
    · have item := arrayIssues_eq_nil_iff.1 passed position value isItem
      rw [Nat.zero_add] at item
      exact itemPasses_of_itemIssues listed others item
  alternatives isUnion := by
    unfold partIssues at h
    simp only [isUnion] at h
    obtain ⟨parts, found, some⟩ := exists_of_bind_eq_ok h
    obtain ⟨part, mem, passes⟩ := exists_of_accepted some
    exact ⟨part.1, alternatives_val found ▸ List.mem_map_of_mem mem, chain, passes⟩

/-- The validator looks into a value: it has the type of the document, which says nothing else that
settles the matter. -/
structure LooksInto (doc data : Json) : Prop where
  notForbidden : forbidsPresence doc = false
  unlisted : Json.among (allowed doc) data = false
  notExclusive : isExclusive doc = false
  isType : hasType? (typeWord doc) data = some true

/-- Of a value that it looks into the validator finds what the rules say, and what its parts are. -/
theorem LooksInto.check_eq (h : LooksInto doc data) (chain : List Char) : check doc data chain = do
    let found ← partIssues doc (fun part => check part.1) data chain
    return ruleIssues doc data chain ++ found := by
  have notForbidden : ¬ forbidsPresence doc = true := Bool.eq_false_iff.1 h.notForbidden
  have unlisted : ¬ Json.among (allowed doc) data = true := Bool.eq_false_iff.1 h.unlisted
  have notExclusive : ¬ isExclusive doc = true := Bool.eq_false_iff.1 h.notExclusive
  rw [check, step, if_neg notForbidden, if_neg unlisted, if_neg notExclusive]
  simp only [h.isType]

/-- The validator accepts a value if it finds no issue, and only then. -/
theorem validate_eq_accepted_iff :
    validate doc data = .ok .accepted ↔ check doc data [] = .ok [] := by
  rw [validate]
  rcases check doc data [] with _ | _ | _
  · exact iff_of_false nofun nofun
  · exact iff_of_true rfl rfl
  · exact iff_of_false nofun nofun

/-- A value of which there is no issue keeps the rules. -/
theorem keeps_of_ruleIssues (h : ruleIssues doc data chain = []) :
    ∀ size ∈ size? data, ∀ rule ∈ rules doc, broken? size rule = none := by
  intro size isSize rule mem
  rw [ruleIssues, isSize] at h
  by_contra broken
  obtain ⟨text, isBroken⟩ := Option.ne_none_iff_exists'.1 broken
  have reported := List.filterMap_eq_nil_iff.1 h rule mem
  rw [isBroken] at reported
  cases reported

/-- Data that the validator passes suits the document. -/
theorem Passes.suits (h : Passes doc data) : Suits doc data := by
  obtain ⟨chain, h⟩ := h
  rw [check, step] at h
  split_ifs at h with forbids isAllowed exclusive
  · cases h
  · exact ⟨Bool.eq_false_iff.2 forbids, .inl isAllowed⟩
  · cases h
  · refine ⟨Bool.eq_false_iff.2 forbids, .inr ?_⟩
    dsimp only at h
    rcases isType : hasType? (typeWord doc) data with _ | _ | _ <;> rw [isType] at h
    · cases h
    · cases h
    · obtain ⟨found, parts, h⟩ := exists_of_bind_eq_ok h
      obtain ⟨noRules, rfl⟩ := List.append_eq_nil_iff.1 (Except.ok.inj h)
      exact ⟨Bool.eq_false_iff.2 exclusive, isType, keeps_of_ruleIssues noRules,
        partsPass_of_partIssues parts⟩

end SchemaBridge.Describe
