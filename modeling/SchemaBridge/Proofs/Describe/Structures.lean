import SchemaBridge.Proofs.Describe.Answers
import SchemaBridge.Proofs.Describe.Consistency
import SchemaBridge.Proofs.Fluent.Likeness

/-!
# What the structures of descriptions accept

The structure of a document without modifiers accepts the data that suits the document, if the
schemas of the documents inside do so, and if those of documents that may be absent are optional.
Some documents are not written out but made up by the adapter, for several item documents and for
the keys of a record; data suits them just as it should.

## Main definitions

* `Describe.Serves` : a schema accepts the data that suits a document.

## Main results

* `Describe.accepts_structure` : the structure of a document accepts the data that suits the
  document.
-/

namespace SchemaBridge.Describe

open Draft07 Plan

variable {doc data : Json}

/-! ### Documents that are made up -/

theorem alternativesOf_alternativesDocument (docs : List Json) :
    alternativesOf (alternativesDocument docs) = docs := by
  have listed : partsOf (alternativesDocument docs) "matches" =
      docs.map fun doc => .object [("schema", doc)] := rfl
  rw [alternativesOf, listed, List.filterMap_map]
  exact List.filterMap_some

theorem coherent_alternativesDocument {docs : List Json} (each : ∀ doc ∈ docs, Coherent doc) :
    Coherent (alternativesDocument docs) := by
  refine .of_inside ⟨rfl, fun _ _ isAllowed => ?_, fun exclusive => ?_, nofun⟩ fun part inside => ?_
  · cases isAllowed
  · cases exclusive
  · cases inside with
    | alternative mem => exact each part (alternativesOf_alternativesDocument docs ▸ mem)
    | key mem | position mem | item mem => cases mem
    | rule isRule => cases isRule

/-- Data that one of several documents passes suits the document of them all. -/
theorem suits_alternativesDocument {docs : List Json} {part : Json} (mem : part ∈ docs)
    (passes : Passes part data) : Suits (alternativesDocument docs) data where
  notForbidden := rfl
  fits := by
    refine .inr ⟨rfl, rfl, fun _ _ => nofun, fun isObject => ?_, fun isObject => ?_,
      fun isArray => ?_, fun _ =>
        ⟨part, (alternativesOf_alternativesDocument docs).symm ▸ mem, passes⟩⟩
    · exact absurd isObject (show "alternatives" ≠ "object" by decide)
    · exact absurd isObject (show "alternatives" ≠ "object" by decide)
    · exact absurd isArray (show "alternatives" ≠ "array" by decide)

/-- The rules for keys have no limits. -/
private theorem limitless_keyDocument (pattern : Json) :
    ∀ rule ∈ rules (keyDocument pattern), ruleLimit? rule.2 = none := by
  unfold keyDocument
  cases (pattern.get? "regex").bind Json.asString? with
  | none => exact nofun
  | some regex =>
    intro rule mem
    obtain rfl := List.mem_singleton.1 mem
    rfl

theorem coherent_keyDocument (pattern : Json) : Coherent (keyDocument pattern) := by
  have get? {key : String} (notType : key ≠ "type") (notRules : key ≠ "rules") :
      (keyDocument pattern).get? key = none := by
    unfold keyDocument
    cases (pattern.get? "regex").bind Json.asString? <;>
      simp [Json.get?, Table.get?_cons, notType.symm, notRules.symm]
  have flagless (name : String) : flag? (keyDocument pattern) name = none := by
    rw [flag?, get? (by decide) (by decide)]
    rfl
  refine .of_inside ⟨?_, fun _ _ isAllowed => ?_, fun exclusive => ?_,
    fun rule mem limit isLimit => ?_⟩ fun part inside => ?_
  · rw [hasDefault, flagless]
    rfl
  · rw [allowed, get? (by decide) (by decide)] at isAllowed
    cases isAllowed
  · rw [isExclusive, flagIsSet, flagless] at exclusive
    cases exclusive
  · cases (limitless_keyDocument pattern rule mem).symm.trans isLimit
  · have empty {field : String} (notType : field ≠ "type") (notRules : field ≠ "rules") :
        partsOf (keyDocument pattern) field = [] := by
      rw [partsOf, get? notType notRules]
      rfl
    cases inside with
    | key mem =>
      rw [keysOf, get? (by decide) (by decide)] at mem
      cases mem
    | alternative mem =>
      rw [alternativesOf, empty (by decide) (by decide)] at mem
      cases mem
    | position mem | item mem =>
      rw [empty (by decide) (by decide)] at mem
      cases mem
    | rule isRule =>
      rw [ruleOf?, empty (by decide) (by decide)] at isRule
      cases isRule

/-- Every key suits the document of the keys of a record, but for its pattern. -/
theorem suits_keyDocument (pattern : Json) (key : String) :
    Suits (keyDocument pattern) (.string key) := by
  have isString : typeWord (keyDocument pattern) = "string" := rfl
  refine ⟨?_, .inr ⟨?_, rfl, fun size _ rule mem => ?_, fun isObject => ?_, fun isObject => ?_,
    fun isArray => ?_, fun isUnion => ?_⟩⟩
  · unfold keyDocument
    cases (pattern.get? "regex").bind Json.asString? <;> rfl
  · unfold keyDocument
    cases (pattern.get? "regex").bind Json.asString? <;> rfl
  · rw [broken?, limitless_keyDocument pattern rule mem]
    rfl
  · exact absurd (isString.symm.trans isObject) (by decide)
  · exact absurd (isString.symm.trans isObject) (by decide)
  · exact absurd (isString.symm.trans isArray) (by decide)
  · exact absurd (isString.symm.trans isUnion) (by decide)

theorem elementOf?_eq_none_iff : elementOf? doc = none ↔ partsOf doc "items" = [] := by
  unfold elementOf?
  split <;> simp_all

theorem coherent_elementOf? {element : Json} (coherent : Coherent doc)
    (isElement : elementOf? doc = some element) : Coherent element := by
  have each (part : Json) (mem : part ∈ partsOf doc "items") : Coherent part :=
    coherent.inside (.item mem)
  unfold elementOf? at isElement
  split at isElement
  · cases isElement
  · rename_i single
    obtain rfl := Option.some.inj isElement
    exact each _ (single ▸ List.mem_singleton_self _)
  · obtain rfl := Option.some.inj isElement
    exact coherent_alternativesDocument each

/-- Data that some item document passes suits the document of the elements. -/
theorem suits_elementOf? {element part : Json} (isElement : elementOf? doc = some element)
    (mem : part ∈ partsOf doc "items") (passes : Passes part data) : Suits element data := by
  unfold elementOf? at isElement
  split at isElement
  · cases isElement
  · rename_i single
    obtain rfl := Option.some.inj isElement
    rw [single] at mem
    obtain rfl := List.mem_singleton.1 mem
    exact passes.suits
  · obtain rfl := Option.some.inj isElement
    exact suits_alternativesDocument mem passes

/-! ### Documents without modifiers -/

/-- A document whose type word means what it says is plain. -/
theorem plain_of_baseType? {word : String} (h : baseType? doc = some word) :
    type? doc = some word ∧ typeWord doc = word ∧ isExclusive doc = false ∧
      isWrapped doc = false := by
  unfold baseType? at h
  split at h
  · cases h
  · rename_i bare
    simp only [Bool.or_eq_true, not_or, Bool.not_eq_true] at bare
    refine ⟨h, ?_, bare.2, bare.1.1⟩
    rw [typeWord, h]
    rfl

/-- An array without ordered documents is no tuple. -/
theorem unordered_of_array (type : type? doc = some "array")
    (notTuple : describesTuple doc = false) : partsOf doc "ordered" = [] := by
  rw [describesTuple, type, decide_eq_true rfl, Bool.true_and] at notTuple
  rw [partsOf, Option.not_isSome_iff_eq_none.1 (Bool.eq_false_iff.1 notTuple)]
  rfl

theorem isNull_of_same {value : Json} (h : value.same .null = true) : value.isNull = true := by
  cases value <;> first | rfl | cases h

/-- Data that suits a document without modifiers that is not exclusive fits it. -/
theorem Suits.fits_of_bare (h : Suits doc data) (consistent : Consistent doc)
    (notExclusive : isExclusive doc = false) (bare : isWrapped doc = false) : Fits doc data := by
  rcases h.fits with isAllowed | fits
  · rcases consistent.beside notExclusive data isAllowed with rfl | fits
    · obtain ⟨value, mem, same⟩ := List.any_eq_true.1 isAllowed
      have admits : admitsNull doc = true := by
        rw [admitsNull, notExclusive]
        exact List.any_eq_true.2 ⟨value, mem, isNull_of_same same⟩
      rw [isWrapped, admits, Bool.or_true, Bool.true_or] at bare
      cases bare
    · exact fits
  · exact fits

/-- Data that suits an exclusive document is one of the values that the compiler sees. -/
theorem Suits.among_of_exclusive (h : Suits doc data) (consistent : Consistent doc)
    (exclusive : isExclusive doc = true) : Json.among (nonNullAllowed doc) data = true := by
  rcases h.fits with isAllowed | fits
  · obtain ⟨value, mem, same⟩ := List.any_eq_true.1 isAllowed
    refine List.any_eq_true.2 ⟨value, List.mem_filter.2 ⟨mem, ?_⟩, same⟩
    rw [Bool.not_eq_true', Bool.eq_false_iff]
    intro isNull
    cases value with
    | null =>
      refine (consistent.only exclusive data isAllowed).1 ?_
      cases data <;> first | rfl | cases same
    | bool | number | string | array | object => cases isNull
  · cases exclusive.symm.trans fits.notExclusive

/-- A type word means what it says only on a document without modifiers, which data has to fit. -/
theorem Suits.fits_of_baseType? (h : Suits doc data) (consistent : Consistent doc) {word : String}
    (base : baseType? doc = some word) :
    type? doc = some word ∧ typeWord doc = word ∧ Fits doc data := by
  obtain ⟨type, isWord, notExclusive, bare⟩ := plain_of_baseType? base
  exact ⟨type, isWord, h.fits_of_bare consistent notExclusive bare⟩

/-- What a leaf of a type says of data of this type. -/
theorem hasType_of_isType {word : String} (isLeaf : word ∈ ["string", "number", "boolean"])
    (isType : hasType? word data = some true) : hasType word data = true := by
  simp only [List.mem_cons, List.not_mem_nil, or_false] at isLeaf
  rcases isLeaf with rfl | rfl | rfl <;> cases data <;> first | rfl | cases isType

/-- Data that suits a leaf has the type of the leaf. -/
theorem Suits.hasType_of_baseType? (h : Suits doc data) (consistent : Consistent doc)
    {word : String} (isLeaf : word ∈ ["string", "number", "boolean"])
    (base : baseType? doc = some word) : hasType word data = true := by
  obtain ⟨-, isWord, fits⟩ := h.fits_of_baseType? consistent base
  exact hasType_of_isType isLeaf (isWord ▸ fits.isType)

section Values

variable {γ : Type} {node : Schema γ} (holds : node.payload = .description doc)

include holds

theorem values_described : adapter.values node = nonNullAllowed doc := by
  change (node.payload.description?.map nonNullAllowed).getD [] = _
  rw [holds]
  rfl

theorem literal_described : adapter.literal node = (nonNullAllowed doc).head? := by
  change node.payload.description?.bind _ = _
  rw [holds]
  rfl

end Values

/-! ### Schemas of the documents inside -/

/-- A schema accepts the data that suits a document, and is optional if the document may be
absent. -/
structure Serves (targets : Targets) (doc : Json) (c : NodeSchema) : Prop where
  accepts : ∀ value : Json, value.Exact → Suits doc value → Accepts targets c.schema value
  optional : mayBeAbsent doc = true → c.isOptional = true

section Structures

variable {γ : Type} {targets : Targets} {compiles : Schema γ → NodeSchema → Prop}
  (serves : ∀ node c, compiles node c → ∀ doc, node.payload = .description doc → Coherent doc →
    Serves targets doc c)
include serves

/-- The schemas of several nodes serve the documents of these nodes. -/
theorem serves_parts {nodes : List (Schema γ)} {docs : List Json} {cs : List NodeSchema}
    (holds : nodes.map (·.payload) = docs.map .description)
    (compiled : List.Forall₂ compiles nodes cs) (coherent : ∀ doc ∈ docs, Coherent doc) :
    List.Forall₂ (Serves targets) docs cs := by
  induction compiled generalizing docs with
  | nil =>
    cases docs with
    | nil => exact .nil
    | cons => cases holds
  | cons first _ ih =>
    cases docs with
    | nil => cases holds
    | cons doc docs =>
      obtain ⟨payload, payloads⟩ := List.cons.inj holds
      exact .cons (serves _ _ first doc payload (coherent doc List.mem_cons_self))
        (ih payloads fun other mem => coherent other (List.mem_cons_of_mem _ mem))

theorem serves_part? {node? : Option (Schema γ)} {doc? : Option Json} {c? : Option NodeSchema}
    (holds : node?.map (·.payload) = doc?.map .description)
    (compiled : Option.Rel compiles node? c?)
    (coherent : ∀ doc ∈ doc?, Coherent doc) : Option.Rel (Serves targets) doc? c? := by
  cases compiled with
  | none =>
    cases doc? with
    | none => exact .none
    | some => cases holds
  | some compiled =>
    cases doc? with
    | none => cases holds
    | some doc => exact .some (serves _ _ compiled doc (Option.some.inj holds) (coherent doc rfl))

theorem serves_entries {nodes : List (String × Schema γ)} {docs : Json.Fields}
    {cs : List (String × NodeSchema)}
    (holds : nodes.map (fun entry => (entry.1, entry.2.payload)) =
      docs.map fun entry => (entry.1, .description entry.2))
    (compiled : List.Forall₂ (fun a b => a.1 = b.1 ∧ compiles a.2 b.2) nodes cs)
    (coherent : ∀ entry ∈ docs, Coherent entry.2) :
    List.Forall₂ (fun a b => a.1 = b.1 ∧ Serves targets a.2 b.2) docs cs := by
  induction compiled generalizing docs with
  | nil =>
    cases docs with
    | nil => exact .nil
    | cons => cases holds
  | cons first _ ih =>
    cases docs with
    | nil => cases holds
    | cons entry docs =>
      obtain ⟨same, others⟩ := List.cons.inj holds
      obtain ⟨key, payload⟩ := Prod.mk.inj same
      exact .cons ⟨key.symm.trans first.1,
          serves _ _ first.2 entry.2 payload (coherent entry List.mem_cons_self)⟩
        (ih others fun other mem => coherent other (List.mem_cons_of_mem _ mem))

/-- One of the schemas of the alternatives accepts what suits a union. -/
theorem exists_alternative {node : Schema γ} {parts : List (Schema γ)} {cs : List NodeSchema}
    (holds : node.payload = .description doc) (coherent : Coherent doc) (suits : Suits doc data)
    (exact : data.Exact) (isUnion : baseType? doc = some "alternatives")
    (gives : (adapter.options node).Gives parts) (compiled : List.Forall₂ compiles parts cs) :
    ∃ c ∈ cs, Accepts targets c.schema data := by
  obtain ⟨-, isWord, fits⟩ := suits.fits_of_baseType? coherent.consistent isUnion
  have served := serves_parts serves (gives_options holds gives) compiled
    fun part mem => coherent.inside (.alternative mem)
  obtain ⟨part, mem, passes⟩ := fits.parts.alternatives isWord
  obtain ⟨c, isOption, serve⟩ := exists_right_of_forall₂ served mem
  exact ⟨c, isOption, serve.accepts data exact passes.suits⟩

end Structures

/-- An item that is passed suits the document of its position. -/
theorem ItemPasses.suits {position : Nat} {value part : Json} (h : ItemPasses doc position value)
    (isPart : (partsOf doc "ordered")[position]?.or (elementOf? doc) = some part) :
    Suits part value := by
  unfold ItemPasses at h
  split at h
  · rename_i ordered isOrdered
    rw [isOrdered, Option.some_or] at isPart
    obtain rfl := Option.some.inj isPart
    exact h.suits
  · rename_i noPosition
    rw [noPosition, Option.none_or] at isPart
    rcases h with ⟨none, -⟩ | ⟨item, mem, passes⟩
    · cases (elementOf?_eq_none_iff.2 none).symm.trans isPart
    · exact suits_elementOf? isPart mem passes

section Parts

open Structure

variable {targets : Targets} (fits : Fits doc data) (exact : data.Exact)
include fits exact

theorem accepts_keys (isObject : typeWord doc = "object") (notRecord : describesRecord doc = false)
    (present : ∀ entry ∈ keysOf doc, hasDefault entry.2 = false)
    {entries : List (String × NodeSchema)}
    (served : List.Forall₂ (fun a b => a.1 = b.1 ∧ Serves targets a.2 b.2) (keysOf doc) entries) :
    Accepts targets (object entries) data := by
  have typed := fits.isType
  rw [isObject] at typed
  cases data with
  | object fields =>
    rw [Json.Exact] at exact
    refine (accepts_object _).2 ⟨fields, rfl, fun c isLast => ?_⟩
    obtain ⟨entry, isLast', key, serves⟩ :=
      exists_left_of_forall₂ (Table.lastEntries_forall₂ served) isLast
    have mem := (Table.lastEntries_sublist _).subset isLast'
    obtain ⟨passes, mayMiss⟩ := fits.parts.keys isObject notRecord fields rfl entry mem
    rw [← key]
    refine ⟨fun value found => ?_, fun must => ?_⟩
    · exact serves.accepts value (exact.2.of_mem (Table.mem_of_get? found)).2
        (passes value found).suits
    · by_contra missing
      rcases mayMiss (Bool.eq_false_iff.2 missing) with absent | default
      · rw [serves.optional absent] at must
        cases must
      · cases (present entry mem).symm.trans default
  | null | bool | number | string | array => cases typed

theorem accepts_record (isObject : typeWord doc = "object") (isRecord : describesRecord doc = true)
    {key value : Option NodeSchema}
    (keys : Option.Rel (Serves targets) ((partsOf doc "patterns").head?.map keyDocument) key)
    (values : Option.Rel (Serves targets) (ruleOf? doc) value) :
    Accepts targets (keyed key value) data := by
  have typed := fits.isType
  rw [isObject] at typed
  cases data with
  | object fields =>
    rw [Json.Exact] at exact
    refine (accepts_keyed _ _).2 ⟨fields, rfl, fun c isKey _ name mem => ?_,
      fun c isValue entry mem => ?_⟩
    · obtain rfl := Option.mem_def.1 isKey
      generalize isPattern : (partsOf doc "patterns").head?.map keyDocument = part at keys
      obtain ⟨served⟩ := keys
      obtain ⟨pattern, -, rfl⟩ := Option.map_eq_some_iff.1 isPattern
      obtain ⟨entry, isEntry, rfl⟩ := List.mem_map.1 mem
      exact served.accepts _ (exact.2.of_mem isEntry).1 (suits_keyDocument pattern entry.1)
    · obtain rfl := Option.mem_def.1 isValue
      generalize isRule : ruleOf? doc = rule at values
      obtain ⟨served⟩ := values
      exact served.accepts _ (exact.2.of_mem mem).2
        (fits.parts.record isObject isRecord fields rfl _ isRule entry mem).suits
  | null | bool | number | string | array => cases typed

theorem accepts_elements (isArray : typeWord doc = "array") (unordered : partsOf doc "ordered" = [])
    {element : Option NodeSchema} (served : Option.Rel (Serves targets) (elementOf? doc) element) :
    Accepts targets (typed "array" ++ optionally "items" (element.map NodeSchema.toJson)) data := by
  have typed := fits.isType
  rw [isArray] at typed
  cases data with
  | array items =>
    rw [Json.Exact] at exact
    refine (accepts_array _).2 ⟨items, rfl, fun c isElement item mem => ?_⟩
    obtain rfl := Option.mem_def.1 isElement
    generalize isPart : elementOf? doc = part at served
    obtain ⟨served⟩ := served
    obtain ⟨position, isItem⟩ := List.mem_iff_getElem?.1 mem
    obtain ⟨-, each⟩ := fits.parts.items isArray items rfl
    refine served.accepts item (exact.2.of_mem mem) ((each position item isItem).suits ?_)
    rw [unordered, List.getElem?_nil, Option.none_or, isPart]
  | null | bool | number | string | object => cases typed

theorem accepts_positions (isArray : typeWord doc = "array") (isTuple : describesTuple doc = true)
    {positions : List NodeSchema} {rest : Option NodeSchema}
    (fixed : List.Forall₂ (Serves targets) (partsOf doc "ordered") positions)
    (others : Option.Rel (Serves targets) (elementOf? doc) rest) :
    Accepts targets (tuple (positions.map NodeSchema.toJson) (rest.map NodeSchema.toJson))
      data := by
  have typed := fits.isType
  rw [isArray] at typed
  cases data with
  | array items =>
    rw [Json.Exact] at exact
    obtain ⟨enough, each⟩ := fits.parts.items isArray items rfl
    refine (accepts_tuple _ _).2 ⟨items, rfl, fixed.length_eq ▸ enough, fun none => ?_,
      fun i item isItem c isSchema => ?_⟩
    · by_contra more
      subst none
      generalize noElement : elementOf? doc = part at others
      obtain _ | _ := others
      rw [← fixed.length_eq, Nat.not_le] at more
      have passes := each _ _ (List.getElem?_eq_getElem more)
      unfold ItemPasses at passes
      rw [List.getElem?_eq_none (Nat.le_refl _)] at passes
      rcases passes with ⟨-, notTuple⟩ | ⟨part, mem, -⟩
      · cases notTuple.symm.trans isTuple
      · rw [elementOf?_eq_none_iff.1 noElement] at mem
        cases mem
    · have served := rel_getElem?_or_of_forall₂ fixed others i
      rw [isSchema] at served
      generalize isPart : (partsOf doc "ordered")[i]?.or (elementOf? doc) = part at served
      obtain ⟨served⟩ := served
      exact served.accepts item (exact.2.of_mem (List.mem_of_getElem? isItem))
        ((each i item isItem).suits isPart)
  | null | bool | number | string | object => cases typed

end Parts

/-- The structure of a document accepts the data that suits the document. -/
theorem accepts_structure {γ : Type} {targets : Targets}
    {compiles : Schema γ → NodeSchema → Prop} {options : DocumentOptions} {node : Schema γ}
    {shape : Shape} {assembly : Assembly}
    (serves : ∀ node c, compiles node c → ∀ doc, node.payload = .description doc → Coherent doc →
      Serves targets doc c)
    (holds : node.payload = .description doc) (coherent : Coherent doc) (suits : Suits doc data)
    (exact : data.Exact) (isShape : hasShape doc shape = true)
    (yields : Yields compiles (Structure.ofShape options node adapter shape) assembly) :
    Accepts targets assembly.body data := by
  have typed {word : String} (base : baseType? doc = some word) :=
    suits.fits_of_baseType? coherent.consistent base
  cases Structure.consists_of_yields yields with
  | typed isWord =>
    simp only [Structure.typeShapes, List.mem_cons, Prod.mk.injEq, List.not_mem_nil,
      or_false] at isWord
    rcases isWord with ⟨rfl, rfl⟩ | ⟨rfl, rfl⟩ | ⟨rfl, rfl⟩ | ⟨rfl, rfl⟩ | ⟨rfl, rfl⟩ | ⟨rfl, rfl⟩
    case inr.inr.inl | inr.inr.inr.inl | inr.inr.inr.inr.inl =>
      exact (accepts_typed _).2
        (suits.hasType_of_baseType? coherent.consistent (by decide) (of_decide_eq_true isShape))
    all_goals cases isShape
  | date isDate =>
    rcases isDate with rfl | ⟨rfl, -⟩
    · obtain ⟨-, isWord, fits⟩ := typed (of_decide_eq_true isShape)
      have isType := fits.isType
      rw [isWord] at isType
      exact (accepts_date options).2 (hasType_of_isType (by decide) isType)
    · cases isShape
  | anything => exact accepts_empty targets data
  | nothing isEmpty =>
    simp only [List.mem_cons, List.not_mem_nil, or_false] at isEmpty
    rcases isEmpty with rfl | rfl | rfl
    · cases isShape
    · cases isShape
    · obtain ⟨-, forbids⟩ := Bool.and_eq_true_iff.1 isShape
      cases suits.notForbidden.symm.trans forbids
  | literal =>
    obtain ⟨bare, single⟩ := Bool.and_eq_true_iff.1 isShape
    have isAmong := suits.among_of_exclusive coherent.consistent (Bool.and_eq_true_iff.1 bare).2
    obtain ⟨value, same⟩ := List.length_eq_one_iff.1 (of_decide_eq_true single)
    rw [same] at isAmong
    rw [literal_described holds, same]
    exact (accepts_const value).2 (by simpa [Json.among] using isAmong)
  | noValues empty =>
    obtain ⟨bare, -⟩ := Bool.and_eq_true_iff.1 isShape
    have isAmong := suits.among_of_exclusive coherent.consistent (Bool.and_eq_true_iff.1 bare).2
    rw [← values_described holds, empty] at isAmong
    cases isAmong
  | enumeration =>
    obtain ⟨bare, -⟩ := Bool.and_eq_true_iff.1 isShape
    have isAmong := suits.among_of_exclusive coherent.consistent (Bool.and_eq_true_iff.1 bare).2
    rw [values_described holds]
    exact (accepts_enum _).2 isAmong
  | only gives compiled =>
    obtain ⟨c, isOption, accepted⟩ := exists_alternative serves holds coherent suits
      exact (of_decide_eq_true isShape) gives (.cons compiled .nil)
    obtain rfl := List.mem_singleton.1 isOption
    exact accepted
  | union gives compiled =>
    obtain ⟨c, isOption, accepted⟩ := exists_alternative serves holds coherent suits
      exact (of_decide_eq_true isShape) gives compiled
    exact (accepts_union _).2 ⟨c, isOption, accepted⟩
  | object gives compiled =>
    obtain ⟨base, notRecord⟩ := Bool.and_eq_true_iff.1 isShape
    obtain ⟨-, isWord, fits⟩ := typed (of_decide_eq_true base)
    have inside (entry : String × Json) (mem : entry ∈ keysOf doc) : Coherent entry.2 :=
      coherent.inside (.key mem)
    exact accepts_keys fits exact isWord (by simpa using notRecord)
      (fun entry mem => (inside entry mem).consistent.noDefault)
      (serves_entries serves (gives_entries holds gives) compiled inside)
  | record givesKey givesValue keys values =>
    obtain ⟨base, isRecord⟩ := Bool.and_eq_true_iff.1 isShape
    obtain ⟨-, isWord, fits⟩ := typed (of_decide_eq_true base)
    refine accepts_record fits exact isWord isRecord
      (serves_part? serves (gives_recordKey holds givesKey) keys fun part isKey => ?_)
      (serves_part? serves (gives_recordValue holds givesValue) values fun part isRule =>
        coherent.inside (.rule isRule))
    obtain ⟨pattern, -, rfl⟩ := Option.map_eq_some_iff.1 isKey
    exact coherent_keyDocument pattern
  | array gives compiled =>
    obtain ⟨base, notTuple⟩ := Bool.and_eq_true_iff.1 isShape
    obtain ⟨type, isWord, fits⟩ := typed (of_decide_eq_true base)
    exact accepts_elements fits exact isWord (unordered_of_array type (by simpa using notTuple))
      (serves_part? serves (gives_element holds gives) compiled
        fun part => coherent_elementOf? coherent)
  | tuple givesPositions compiled givesRest compiledRest =>
    obtain ⟨base, isTuple⟩ := Bool.and_eq_true_iff.1 isShape
    obtain ⟨-, isWord, fits⟩ := typed (of_decide_eq_true base)
    exact accepts_positions fits exact isWord isTuple
      (serves_parts serves (gives_positions holds givesPositions) compiled
        fun part mem => coherent.inside (.position mem))
      (serves_part? serves (gives_rest holds givesRest) compiledRest
        fun part => coherent_elementOf? coherent)
  | promise | intersection | map | set => cases isShape

end SchemaBridge.Describe
