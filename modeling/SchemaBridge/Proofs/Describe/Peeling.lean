import SchemaBridge.Proofs.Describe.Answers
import SchemaBridge.Proofs.Describe.Predicates

/-!
# Modifiers of a description come off one by one

A description has no layers: its modifiers are a flag for the presence, `null` among the allowed
values, and a flag for a default. Which of them is asked about, and what is edited to take it off,
is decided in two places. They belong together: whatever the document looks like, what is edited is
what the predicate looked at, and nothing else. So a document is unwrapped once for each modifier
that it has, the presence first, then `null`, then the default.

## Main definitions

* `Describe.bears`, `Describe.modifiers` : the modifiers that a document has.
* `Describe.Cleared` : a document is another one with one modifier cleared.
* `Describe.Sheds` : unwrapping a node again and again takes these modifiers off.
* `Describe.PeelsExactly` : unwrapping a node takes off the modifiers of its document, and nothing
  else.

## Main results

* `Describe.Cleared.bears_iff` : the other modifiers of a document are as before.
* `Describe.cleared_of_peel?` : the modifier that is cleared is the one whose predicate holds.
* `Describe.peelsExactly` : unwrapping takes off exactly the modifiers.
-/

namespace SchemaBridge.Describe

variable {doc inner : Json}

/-! ### The modifiers of a document -/

/-- The modifiers that documents can have, the outermost first. -/
def modifierOrder : List Modifier := [.optional, .nullable, .defaulted]

/-- A document has a modifier, whether or not another one is around it. -/
def bears (doc : Json) : Modifier → Bool
  | .optional => mayBeAbsent doc
  | .nullable => admitsNull doc
  | .defaulted => hasDefault doc
  | _ => false

/-- The modifiers that a document has, the outermost first. -/
def modifiers (doc : Json) : List Modifier := modifierOrder.filter (bears doc)

/-- The predicate of a document with modifiers is the outermost of them. -/
theorem predicate?_eq_modifier_iff {modifier : Modifier} :
    predicate? doc = some (.modifier modifier) ↔ (modifiers doc).head? = some modifier := by
  unfold predicate? modifiers modifierOrder
  cases absent : mayBeAbsent doc <;> cases null : admitsNull doc <;>
    cases default : hasDefault doc <;>
    simp [bears, absent, null, default]

/-! ### Fields that are edited -/

/-- A document is another one in which one field has a new value, at the place of the old one. -/
structure FieldChanged (doc : Json) (field : String) (old new : Json) (inner : Json) : Prop where
  before : doc.get? field = some old
  after : inner.get? field = some new
  others : ∀ key, key ≠ field → inner.get? key = doc.get? key
  keys : inner.asObject?.map Table.keys = doc.asObject?.map Table.keys

/-- A document is another one with one modifier cleared: the flag is gone, or the nulls among the
allowed values are, and everything else is as before. -/
inductive Cleared (doc inner : Json) : Modifier → Prop where
  | presence {flags rest : Json.Fields}
      (changed : FieldChanged doc "flags" (.object flags) (.object rest) inner)
      (said : Table.get? flags "presence" = some (.string "optional"))
      (gone : ∀ key, Table.get? rest key =
        if key = "presence" then none else Table.get? flags key) :
      Cleared doc inner .optional
  | null {values : List Json}
      (changed : FieldChanged doc "allow" (.array values)
        (.array (values.filter fun value => !value.isNull)) inner)
      (said : .null ∈ values) : Cleared doc inner .nullable
  | default {flags rest : Json.Fields}
      (changed : FieldChanged doc "flags" (.object flags) (.object rest) inner)
      (said : (Table.get? flags "default").isSome = true)
      (gone : ∀ key, Table.get? rest key = if key = "default" then none else Table.get? flags key) :
      Cleared doc inner .defaulted

section Fields

variable {fields : Json.Fields} {field : String} {old new : Json}

/-- Writing under a key that is there changes one field. -/
theorem fieldChanged_put (found : Table.get? fields field = some old) :
    FieldChanged (.object fields) field old new (.object (Table.put fields field new)) where
  before := found
  after := Table.get?_put_self ..
  others _ other := Table.get?_put_of_ne _ _ (Ne.symm other)
  keys := by
    have isKey : field ∈ Table.keys fields :=
      (Table.has_iff_mem_keys ..).1 (Option.isSome_of_eq_some found)
    rw [Json.asObject?, Json.asObject?, Option.map_some, Option.map_some, Table.keys_put,
      if_pos isKey]

/-- A flag that is there is cleared. -/
theorem fieldChanged_clearFlag {name : String} {value : Json}
    (flagged : flag? doc name = some value) :
    ∃ flags, Table.get? flags name = some value ∧
      FieldChanged doc "flags" (.object flags) (.object (Table.swapRemove flags name))
        (clearFlag doc name) := by
  obtain ⟨holder, isField, found⟩ := Option.bind_eq_some_iff.1 flagged
  cases doc with
  | object fields =>
    cases holder with
    | object flags =>
      have isField : Table.get? fields "flags" = some (.object flags) := isField
      refine ⟨flags, found, ?_⟩
      rw [clearFlag, isField]
      exact fieldChanged_put isField
    | _ => cases found
  | _ => cases isField

/-- Nulls among the allowed values are cleared. -/
theorem fieldChanged_clearNulls (null : (allowed doc).any Json.isNull = true) :
    FieldChanged doc "allow" (.array (allowed doc)) (.array (nonNullAllowed doc))
      (clearNulls doc) := by
  have listed : (doc.get? "allow").bind Json.asArray? = some (allowed doc) := by
    rw [allowed] at null ⊢
    cases found : (doc.get? "allow").bind Json.asArray? with
    | none =>
      rw [found] at null
      cases null
    | some values => rfl
  obtain ⟨holder, isField, isList⟩ := Option.bind_eq_some_iff.1 listed
  cases doc with
  | object fields =>
    cases holder with
    | array values =>
      have isField : Table.get? fields "allow" = some (.array values) := isField
      obtain rfl : values = _ := Option.some.inj isList
      rw [clearNulls, isField]
      exact fieldChanged_put isField
    | _ => cases isList
  | _ => cases isField

end Fields

/-! ### What an edit leaves -/

section Flags

variable {flags rest : Json.Fields} {name : String}
  (changed : FieldChanged doc "flags" (.object flags) (.object rest) inner)
  (gone : ∀ key, Table.get? rest key = if key = name then none else Table.get? flags key)
include changed gone

theorem flag?_of_gone (key : String) :
    flag? inner key = if key = name then none else flag? doc key := by
  rw [flag?, flag?, changed.after, changed.before]
  exact gone key

/-- A flag that goes takes no other modifier with it. -/
theorem admitsNull_of_gone (other : name ≠ "only") : admitsNull inner = admitsNull doc := by
  rw [admitsNull, admitsNull, isExclusive, isExclusive, flagIsSet, flagIsSet,
    flag?_of_gone changed gone, if_neg other.symm, allowed, allowed, changed.others _ (by decide)]

end Flags

/-- Whether a value may be absent is read off the flag for the presence. -/
theorem bears_optional_of_flag? (same : flag? inner "presence" = flag? doc "presence") :
    bears inner .optional = bears doc .optional := by
  rw [bears, bears, mayBeAbsent, mayBeAbsent, flagText?, flagText?, same]

/-- Whether there is a default is read off the flag for it. -/
theorem bears_defaulted_of_flag? (same : flag? inner "default" = flag? doc "default") :
    bears inner .defaulted = bears doc .defaulted := by
  rw [bears, bears, hasDefault, hasDefault, same]

/-- The modifier that is cleared is gone, and the others are as before. -/
theorem Cleared.bears_iff {modifier : Modifier} (h : Cleared doc inner modifier)
    (other : Modifier) : bears inner other = true ↔ other ≠ modifier ∧ bears doc other = true := by
  cases h with
  | presence changed said gone =>
    have flags := flag?_of_gone changed gone
    cases other with
    | optional => simp [bears, mayBeAbsent, flagText?, flags]
    | nullable => simp [bears, admitsNull_of_gone changed gone (by decide)]
    | defaulted => simp [bears_defaulted_of_flag? (flags "default")]
    | _ => simp [bears]
  | @null values changed said =>
    have flags (key : String) : flag? inner key = flag? doc key := by
      rw [flag?, flag?, changed.others _ (by decide)]
    have left : allowed inner = values.filter fun value => !value.isNull := by
      rw [allowed, changed.after]
      rfl
    cases other with
    | optional => simp [bears_optional_of_flag? (flags "presence")]
    | nullable => simp [bears, admitsNull, left]
    | defaulted => simp [bears_defaulted_of_flag? (flags "default")]
    | _ => simp [bears]
  | default changed said gone =>
    have flags := flag?_of_gone changed gone
    cases other with
    | optional => simp [bears_optional_of_flag? (flags "presence")]
    | nullable => simp [bears, admitsNull_of_gone changed gone (by decide)]
    | defaulted => simp [bears, hasDefault, flags]
    | _ => simp [bears]

/-- When the outermost modifier is cleared the modifiers that are left are the other ones. -/
theorem Cleared.modifiers_eq {modifier : Modifier} (h : Cleared doc inner modifier)
    (outermost : (modifiers doc).head? = some modifier) :
    modifiers doc = modifier :: modifiers inner := by
  have left (other : Modifier) :
      bears inner other = (decide (other ≠ modifier) && bears doc other) := by
    rw [Bool.eq_iff_iff, h.bears_iff, Bool.and_eq_true, decide_eq_true_eq]
  obtain ⟨rest, split⟩ := List.head?_eq_some_iff.1 outermost
  have distinct : (modifiers doc).Nodup := (by decide : modifierOrder.Nodup).filter _
  rw [split, List.nodup_cons] at distinct
  have filtered : modifiers inner = (modifiers doc).filter (· ≠ modifier) := by
    rw [modifiers, modifiers, List.filter_filter]
    exact List.filter_congr fun other _ => left other
  have kept : rest.filter (· ≠ modifier) = rest := by
    refine List.filter_eq_self.2 fun other mem => decide_eq_true ?_
    rintro rfl
    exact distinct.1 mem
  rw [filtered, split, List.filter_cons_of_neg (by simp), kept]

/-- What is taken off is the modifier whose predicate holds. -/
theorem cleared_of_peel? (peels : peel? doc = some inner) :
    ∃ modifier, predicate? doc = some (.modifier modifier) ∧ Cleared doc inner modifier := by
  have removed (flags : Json.Fields) (name key : String) :
      Table.get? (Table.swapRemove flags name) key =
        if key = name then none else Table.get? flags key :=
    Table.get?_swapRemove ..
  rw [peel?] at peels
  split at peels
  next absent =>
    obtain rfl := Option.some.inj peels
    refine ⟨.optional, if_pos absent, ?_⟩
    obtain ⟨value, flagged, isText⟩ := Option.bind_eq_some_iff.1 (of_decide_eq_true absent)
    obtain ⟨flags, found, changed⟩ := fieldChanged_clearFlag flagged
    cases value with
    | string text =>
      obtain rfl := Option.some.inj isText
      exact .presence changed found (removed flags _)
    | _ => cases isText
  next present =>
    split at peels
    next null =>
      obtain rfl := Option.some.inj peels
      have outermost : predicate? doc = some (.modifier .nullable) := by
        rw [predicate?, if_neg present, if_pos null]
      have listed := (Bool.and_eq_true_iff.1 null).2
      obtain ⟨value, mem, isNull⟩ := List.any_eq_true.1 listed
      cases value with
      | null => exact ⟨.nullable, outermost, .null (fieldChanged_clearNulls listed) mem⟩
      | _ => cases isNull
    next solid =>
      split at peels
      next default =>
        obtain rfl := Option.some.inj peels
        have outermost : predicate? doc = some (.modifier .defaulted) := by
          rw [predicate?, if_neg present, if_neg solid, if_pos default]
        obtain ⟨value, flagged⟩ := Option.isSome_iff_exists.1 default
        obtain ⟨flags, found, changed⟩ := fieldChanged_clearFlag flagged
        exact ⟨.defaulted, outermost,
          .default changed (Option.isSome_of_eq_some found) (removed flags _)⟩
      next => cases peels

/-- A document is taken apart as long as it has a modifier. -/
theorem peel?_isSome_iff :
    (peel? doc).isSome = true ↔ ∃ modifier, predicate? doc = some (.modifier modifier) := by
  constructor
  · intro peels
    obtain ⟨inner, peels⟩ := Option.isSome_iff_exists.1 peels
    obtain ⟨modifier, outermost, -⟩ := cleared_of_peel? peels
    exact ⟨modifier, outermost⟩
  · rintro ⟨modifier, outermost⟩
    rw [predicate?] at outermost
    rw [peel?]
    split_ifs at outermost ⊢ <;> simp_all

/-! ### Unwrapping nodes -/

section Node

variable {γ : Type}

/-- Unwrapping a node again and again takes these modifiers off, one after the other, until nothing
is left to be unwrapped. -/
inductive Sheds : Schema γ → List Modifier → Schema γ → Prop where
  | bare {node : Schema γ} (nothing : Answer.Gives (adapter.inner node) none) : Sheds node [] node
  | layer {node inner base : Schema γ} {modifier : Modifier} {rest : List Modifier}
      (wrapped : adapter.holds (.modifier modifier) node = true)
      (gives : Answer.Gives (adapter.inner node) (some inner)) (sheds : Sheds inner rest base) :
      Sheds node (modifier :: rest) base

/-- Unwrapping the node of a document takes off the modifiers of the document, one at a time and
from the outside in, and changes nothing else. -/
structure PeelsExactly (node : Schema γ) (doc : Json) : Prop where
  /-- Unwrapping always answers, and with a node if and only if a modifier predicate holds. -/
  answers : ∀ supply, ∃ given later, adapter.inner node supply = (.ok given, later) ∧
    (given.isSome = true ↔ ∃ modifier, adapter.holds (.modifier modifier) node = true)
  /-- Then no other predicate holds, and the node holds the document with that modifier cleared. -/
  clears : ∀ inner, Answer.Gives (adapter.inner node) (some inner) →
    ∃ modifier ∈ modifierOrder, ∃ rest, inner.payload = .description rest ∧
      (∀ predicate, adapter.holds predicate node = true ↔ predicate = .modifier modifier) ∧
      Cleared doc rest modifier ∧
      ∀ other, bears rest other = true ↔ other ≠ modifier ∧ bears doc other = true
  /-- Unwrapping comes to an end. -/
  ends : ∃ taken base, Sheds node taken base
  /-- By then it has taken off at most three modifiers, in the fixed order, which are those of the
  document, and none is left. -/
  order : ∀ taken base, Sheds node taken base → taken = modifiers doc ∧
    taken.Sublist modifierOrder ∧ taken.length ≤ 3 ∧
    ∀ modifier, adapter.holds (.modifier modifier) base = false

variable {node : Schema γ}

/-- What unwrapping the node of a document answers. -/
theorem inner_run (described : node.payload = .description doc) (supply : Nat) :
    adapter.inner node supply = match peel? doc with
      | some inner => (.ok (some (Schema.ofDescription inner supply).1), supply + 1)
      | none => (.ok none, supply) := by
  change answer? (do return peel? (← documentOf node)) supply = _
  rw [documentOf, described]
  change answer? (.ok (peel? doc)) supply = _
  cases peel? doc <;> rfl

variable (described : node.payload = .description doc)
include described

/-- The modifier predicate that holds of a node is that of its document. -/
theorem holds_modifier_iff (modifier : Modifier) :
    adapter.holds (.modifier modifier) node = true ↔
      predicate? doc = some (.modifier modifier) := by
  rw [holds_adapter described]
  exact hasModifier_iff modifier

/-- If a modifier predicate holds no other predicate does. -/
theorem holds_iff_eq_modifier {modifier : Modifier}
    (outermost : predicate? doc = some (.modifier modifier)) (predicate : TypePredicate) :
    adapter.holds predicate node = true ↔ predicate = .modifier modifier := by
  have plain : ¬ Contradictory doc := fun contradictory => by
    cases outermost.symm.trans contradictory.predicate?_eq
  rw [holds_adapter described, holds_iff, outermost, Option.some.injEq]
  exact (or_iff_left fun second => plain second.1).trans eq_comm

/-- What unwrapping gives holds the document without its outermost modifier. -/
theorem cleared_of_gives {inner : Schema γ}
    (gives : Answer.Gives (adapter.inner node) (some inner)) :
    ∃ modifier rest, inner.payload = .description rest ∧
      predicate? doc = some (.modifier modifier) ∧ Cleared doc rest modifier := by
  have payloads := gives_inner described gives
  rw [Option.map_some] at payloads
  obtain ⟨rest, peels, isRest⟩ := Option.map_eq_some_iff.1 payloads.symm
  obtain ⟨modifier, outermost, cleared⟩ := cleared_of_peel? peels
  exact ⟨modifier, rest, isRest.symm, outermost, cleared⟩

omit described in
/-- Unwrapping ends, by induction on the modifiers that are left. -/
theorem exists_sheds {node : Schema γ} (described : node.payload = .description doc) :
    ∃ taken base, Sheds node taken base := by
  generalize left : modifiers doc = rest
  induction rest generalizing node doc with
  | nil =>
    have bare : peel? doc = none := by
      rw [← Option.not_isSome_iff_eq_none, peel?_isSome_iff]
      rintro ⟨modifier, outermost⟩
      rw [predicate?_eq_modifier_iff, left] at outermost
      cases outermost
    have nothing := inner_run described 0
    rw [bare] at nothing
    exact ⟨[], node, .bare ⟨0, by rw [nothing]⟩⟩
  | cons modifier rest ih =>
    have outermost : predicate? doc = some (.modifier modifier) := by
      rw [predicate?_eq_modifier_iff, left]
      rfl
    obtain ⟨inner, peels⟩ := Option.isSome_iff_exists.1 (peel?_isSome_iff.2 ⟨modifier, outermost⟩)
    have given := inner_run described 0
    rw [peels] at given
    obtain ⟨same, outermost', cleared⟩ := cleared_of_peel? peels
    obtain rfl := TypePredicate.modifier.inj (Option.some.inj (outermost.symm.trans outermost'))
    have fewer := cleared.modifiers_eq (predicate?_eq_modifier_iff.1 outermost)
    rw [left, List.cons_inj_right] at fewer
    have described' :
        (Schema.ofDescription inner 0 : Schema γ × Nat).1.payload = .description inner := rfl
    obtain ⟨taken, base, sheds⟩ := ih described' fewer.symm
    exact ⟨modifier :: taken, base,
      .layer ((holds_modifier_iff described modifier).2 outermost) ⟨0, by rw [given]⟩ sheds⟩

omit described in
/-- What is taken off are the modifiers of the document, in their order, and then none is left. -/
theorem Sheds.taken_eq {node base : Schema γ} {taken : List Modifier} (h : Sheds node taken base)
    (described : node.payload = .description doc) :
    taken = modifiers doc ∧ ∀ modifier, adapter.holds (.modifier modifier) base = false := by
  induction h generalizing doc with
  | @bare node nothing =>
    have payloads := gives_inner described nothing
    have bare : (peel? doc).isSome = false := by
      rw [Option.map_none, eq_comm, Option.map_eq_none_iff] at payloads
      rw [payloads]
      rfl
    have none (modifier : Modifier) : predicate? doc ≠ some (.modifier modifier) :=
      fun outermost => by
      rw [peel?_isSome_iff.2 ⟨modifier, outermost⟩] at bare
      cases bare
    refine ⟨?_, fun modifier => Bool.eq_false_iff.2 fun holds =>
      none modifier ((holds_modifier_iff described modifier).1 holds)⟩
    cases left : modifiers doc with
    | nil => rfl
    | cons modifier rest =>
      refine absurd (predicate?_eq_modifier_iff.2 ?_) (none modifier)
      rw [left]
      rfl
  | layer wrapped gives _ ih =>
    obtain ⟨modifier, rest, isRest, outermost, cleared⟩ := cleared_of_gives described gives
    obtain ⟨taken, bare⟩ := ih isRest
    have same := (holds_iff_eq_modifier described outermost _).1 wrapped
    obtain rfl := TypePredicate.modifier.inj same
    refine ⟨?_, bare⟩
    rw [taken, cleared.modifiers_eq (predicate?_eq_modifier_iff.1 outermost)]

/-- Unwrapping the node of a document takes off exactly the modifiers of the document. -/
theorem peelsExactly : PeelsExactly node doc where
  answers supply := by
    have one : (∃ modifier, adapter.holds (.modifier modifier) node = true) ↔
        (peel? doc).isSome = true := by
      rw [peel?_isSome_iff]
      exact exists_congr fun modifier => holds_modifier_iff described modifier
    rw [inner_run described, one]
    cases peel? doc with
    | none => exact ⟨none, _, rfl, Iff.rfl⟩
    | some inner => exact ⟨some _, _, rfl, iff_of_true rfl rfl⟩
  clears inner gives := by
    obtain ⟨modifier, rest, isRest, outermost, cleared⟩ := cleared_of_gives described gives
    have said : modifier ∈ modifiers doc :=
      List.mem_of_mem_head? (predicate?_eq_modifier_iff.1 outermost)
    exact ⟨modifier, List.mem_of_mem_filter said, rest, isRest,
      holds_iff_eq_modifier described outermost, cleared, cleared.bears_iff⟩
  ends := exists_sheds described
  order taken base sheds := by
    obtain ⟨rfl, bare⟩ := sheds.taken_eq described
    exact ⟨rfl, List.filter_sublist, List.length_filter_le .., bare⟩

end Node

/-- Unwrapping a text that may be absent, may be `null` and has a default takes off all three. -/
theorem layeredText_peelsExactly : (nodeOf layeredText).payload = .description layeredText ∧
    modifiers layeredText = [.optional, .nullable, .defaulted] ∧
    PeelsExactly (nodeOf layeredText) layeredText := ⟨rfl, rfl, peelsExactly rfl⟩

end SchemaBridge.Describe
