import Mathlib.Tactic.SplitIfs
import SchemaBridge.Describe.Adapter

/-!
# The predicate of a description

Each predicate of a document reads its own choice of flags, allowed values and the type word.
Together they come down to one question after another: the modifiers from the outside in, then
whether the value is forbidden, then whether only certain values are allowed, and at last the type
word. So a document has at most one predicate, which the answers single out. There is one exception:
whether only certain values are allowed is asked without regard to whether the value is forbidden,
so that a document that says both has two shapes.

## Main definitions

* `Describe.predicate?` : the predicate that the questions single out.
* `Describe.Contradictory` : the value is forbidden, and only certain values are allowed.

## Main results

* `Describe.holds_iff` : which predicates hold of a document.
* `Describe.predicates_exclude_iff` : the predicates of a node exclude each other, unless its
  document is contradictory.
-/

namespace SchemaBridge.Describe

variable {doc : Json}

/-- The shape that a type word stands for. -/
def shapeOfWord? (doc : Json) : String → Option Shape
  | "string" => some .string
  | "number" => some .number
  | "boolean" => some .boolean
  | "any" => some .any
  | "date" => some .date
  | "symbol" => some .symbol
  | "function" => some .function
  | "alternatives" => some .union
  | "object" => some (if describesRecord doc then .record else .object)
  | "array" => some (if describesTuple doc then .tuple else .array)
  | _ => none

/-- The shape of a document of which only certain values are allowed. -/
def exclusiveShape (doc : Json) : Shape :=
  if (nonNullAllowed doc).length = 1 then .literal else .enumeration

/-- The shape of a document without modifiers. -/
def bareShape? (doc : Json) : Option Shape :=
  if forbidsPresence doc then some .never
  else if isExclusive doc then some (exclusiveShape doc)
  else (type? doc).bind (shapeOfWord? doc)

/-- The predicate of a document. -/
def predicate? (doc : Json) : Option TypePredicate :=
  if mayBeAbsent doc then some (.modifier .optional)
  else if admitsNull doc then some (.modifier .nullable)
  else if hasDefault doc then some (.modifier .defaulted)
  else (bareShape? doc).map .shape

/-- No modifier is left, the value is forbidden, and only certain values are allowed. -/
structure Contradictory (doc : Json) : Prop where
  bare : isWrapped doc = false
  forbidden : forbidsPresence doc = true
  exclusive : isExclusive doc = true

theorem hasModifier_iff (modifier : Modifier) :
    hasModifier doc modifier = true ↔ predicate? doc = some (.modifier modifier) := by
  unfold predicate?
  split_ifs <;> cases modifier <;> simp_all [hasModifier]

/-- The shapes that flags decide about, whatever the type word is. -/
def flagShapes : List Shape := [.never, .literal, .enumeration]

theorem exclusiveShape_mem (doc : Json) : exclusiveShape doc ∈ flagShapes := by
  unfold exclusiveShape
  split_ifs <;> decide

theorem never_ne_exclusiveShape (doc : Json) : .never ≠ exclusiveShape doc := by
  unfold exclusiveShape
  split_ifs <;> decide

theorem notMem_of_shapeOfWord? {word : String} {shape : Shape}
    (told : shapeOfWord? doc word = some shape) : shape ∉ flagShapes := by
  unfold shapeOfWord? at told
  split at told <;> try split at told
  all_goals cases told <;> decide

/-- The shapes that the type word tells. -/
theorem hasShape_iff_of_notMem {shape : Shape} (free : shape ∉ flagShapes) :
    hasShape doc shape = true ↔ (baseType? doc).bind (shapeOfWord? doc) = some shape := by
  rw [Option.bind_eq_some_iff]
  constructor
  · intro holds
    cases shape with
    | object | record | array | tuple =>
      obtain ⟨isWord, form⟩ := Bool.and_eq_true_iff.1 holds
      refine ⟨_, of_decide_eq_true isWord, ?_⟩
      simpa [shapeOfWord?] using form
    | never | literal | enumeration => exact absurd (by decide) free
    | string | number | boolean | any | date | symbol | function | union =>
      exact ⟨_, of_decide_eq_true holds, rfl⟩
    | _ => cases holds
  · rintro ⟨word, isWord, told⟩
    unfold shapeOfWord? at told
    split at told <;> try split at told
    all_goals cases told <;> simp_all [hasShape]

/-- No shape holds of a document with a modifier. -/
theorem hasShape_of_wrapped (wrapped : isWrapped doc = true) (shape : Shape) :
    hasShape doc shape = false := by
  have wordless : baseType? doc = none := by simp [baseType?, wrapped]
  cases shape <;> simp [hasShape, wordless, wrapped]

/-- Which shapes hold of a document without modifiers. -/
theorem hasShape_iff_of_bare (bare : isWrapped doc = false) (shape : Shape) :
    hasShape doc shape = true ↔
      bareShape? doc = some shape ∨ Contradictory doc ∧ shape = exclusiveShape doc := by
  have contradictory : Contradictory doc ↔ forbidsPresence doc = true ∧ isExclusive doc = true :=
    ⟨fun h => ⟨h.forbidden, h.exclusive⟩, fun h => ⟨bare, h.1, h.2⟩⟩
  have base : baseType? doc =
      if forbidsPresence doc = true ∨ isExclusive doc = true then none else type? doc := by
    simp only [baseType?, bare, Bool.false_or, Bool.or_eq_true]
  rw [contradictory, bareShape?]
  by_cases free : shape ∈ flagShapes
  · have untold : (type? doc).bind (shapeOfWord? doc) ≠ some shape := by
      intro told
      obtain ⟨word, -, told⟩ := Option.bind_eq_some_iff.1 told
      exact notMem_of_shapeOfWord? told free
    simp only [flagShapes, List.mem_cons, List.not_mem_nil, or_false] at free
    rcases free with rfl | rfl | rfl <;> rw [exclusiveShape] <;> split_ifs <;>
      simp_all [hasShape]
  · have other : exclusiveShape doc ≠ shape := fun same => free (same ▸ exclusiveShape_mem doc)
    have possible : .never ≠ shape := fun same => free (same ▸ by decide)
    rw [hasShape_iff_of_notMem free, base]
    split_ifs <;> simp_all [Ne.symm other]

/-- Without a modifier the shape decides. -/
theorem predicate?_of_bare (bare : isWrapped doc = false) :
    predicate? doc = (bareShape? doc).map .shape := by
  simp only [isWrapped, Bool.or_eq_false_iff] at bare
  obtain ⟨⟨present, notNull⟩, noDefault⟩ := bare
  simp [predicate?, present, notNull, noDefault]

/-- With a modifier no shape is singled out. -/
theorem predicate?_of_wrapped (wrapped : isWrapped doc = true) (shape : Shape) :
    predicate? doc ≠ some (.shape shape) := by
  unfold predicate?
  split_ifs <;> simp_all [isWrapped]

/-- A predicate holds of a document if it is the one that is singled out, or the second one of a
contradictory document. -/
theorem holds_iff (predicate : TypePredicate) : holds predicate doc = true ↔
    predicate? doc = some predicate ∨
      Contradictory doc ∧ predicate = .shape (exclusiveShape doc) := by
  cases predicate with
  | modifier modifier =>
    rw [holds, hasModifier_iff]
    exact ⟨.inl, fun h => h.resolve_right fun second => nomatch second.2⟩
  | shape shape =>
    rw [holds]
    cases wrapped : isWrapped doc with
    | true =>
      rw [hasShape_of_wrapped wrapped]
      refine iff_of_false Bool.false_ne_true ?_
      rintro (single | ⟨⟨bare, -, -⟩, -⟩)
      · exact predicate?_of_wrapped wrapped shape single
      · cases wrapped.symm.trans bare
    | false =>
      rw [hasShape_iff_of_bare wrapped, predicate?_of_bare wrapped]
      simp

/-- A contradictory document is singled out as one that forbids any value. -/
theorem Contradictory.predicate?_eq (h : Contradictory doc) :
    predicate? doc = some (.shape .never) := by
  rw [predicate?_of_bare h.bare, bareShape?, if_pos h.forbidden]
  rfl

/-! ### Predicates of nodes -/

section Node

variable {γ : Type} {node : Schema γ} (described : node.payload = .description doc)
include described

theorem holds_adapter (predicate : TypePredicate) :
    (adapter : Adapter (Payload γ)).holds predicate node = holds predicate doc := by
  change node.payload.description?.any _ = _
  rw [described]
  rfl

/-- The predicates of the node of a document exclude each other, unless the document is
contradictory. Then two shapes hold of it. -/
theorem predicates_exclude_iff :
    ((∀ p q, (adapter : Adapter (Payload γ)).holds p node = true →
        (adapter : Adapter (Payload γ)).holds q node = true → p = q) ↔ ¬ Contradictory doc) ∧
      (Contradictory doc → ∀ p, (adapter : Adapter (Payload γ)).holds p node = true ↔
        p = .shape .never ∨ p = .shape (exclusiveShape doc)) := by
  simp only [holds_adapter described]
  have two (contradictory : Contradictory doc) (p : TypePredicate) :
      holds p doc = true ↔ p = .shape .never ∨ p = .shape (exclusiveShape doc) := by
    rw [holds_iff, contradictory.predicate?_eq, Option.some.injEq, eq_comm]
    exact or_congr_right (and_iff_right contradictory)
  refine ⟨⟨fun exclude contradictory => ?_, fun plain p q hp hq => ?_⟩, two⟩
  · have same :=
      exclude _ _ ((two contradictory _).2 (.inl rfl)) ((two contradictory _).2 (.inr rfl))
    exact never_ne_exclusiveShape doc (TypePredicate.shape.inj same)
  · have single {p : TypePredicate} (hp : holds p doc = true) : predicate? doc = some p :=
      ((holds_iff p).1 hp).resolve_right fun second => plain second.1
    exact Option.some.inj ((single hp).symm.trans (single hq))

end Node

/-- The node of a document. -/
def nodeOf (doc : Json) : Schema Empty :=
  ⟨⟨0⟩, "polyschema_mock::describe::Descriptor", .description doc⟩

/-- A text that may be absent, may be `null`, and has a default. -/
def layeredText : Json :=
  .object [("type", .string "string"), ("allow", .array [.null, .string "x"]),
    ("flags", .object [("presence", .string "optional"), ("default", .string "x")])]

/-- The predicates of such a text exclude each other, and one of them holds. -/
theorem layeredText_predicates : (nodeOf layeredText).payload = .description layeredText ∧
    (adapter : Adapter (Payload Empty)).holds (.modifier .optional) (nodeOf layeredText) = true ∧
    ∀ p q, (adapter : Adapter (Payload Empty)).holds p (nodeOf layeredText) = true →
      (adapter : Adapter (Payload Empty)).holds q (nodeOf layeredText) = true → p = q := by
  have plain : ¬ Contradictory layeredText := fun h => nomatch (h.bare : true = false)
  exact ⟨rfl, rfl, (predicates_exclude_iff rfl).1.2 plain⟩

/-- A text that is forbidden, and may only be `x`. -/
def forbiddenWord : Json :=
  .object [("type", .string "string"), ("allow", .array [.string "x"]),
    ("flags", .object [("presence", .string "forbidden"), ("only", .bool true)])]

/-- Such a text is a literal and no value at all. -/
theorem forbiddenWord_twofold :
    (adapter : Adapter (Payload Empty)).holds (.shape .never) (nodeOf forbiddenWord) = true ∧
      (adapter : Adapter (Payload Empty)).holds (.shape .literal) (nodeOf forbiddenWord) = true :=
  ⟨rfl, rfl⟩

end SchemaBridge.Describe
