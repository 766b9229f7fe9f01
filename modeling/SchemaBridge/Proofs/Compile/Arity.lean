import SchemaBridge.Proofs.Compile.Bounds
import SchemaBridge.Proofs.Draft07.Structures

/-!
# The arity of tuples

A tuple says how many elements it has by the same two keywords that the bounds of its layers are
written under, and the bounds are written last. So a bound that any layer sets takes the place of
the arity. What the compiled schema accepts has the right number of elements if the bounds along the
chain ask for no less than the arity: then they can only refuse more.

## Main results

* `Structure.get?_tuple_minItems`, `Structure.get?_tuple_maxItems` : the arity in the structure.
* `Call.CompilesBase.arity` : the number of elements that the schema of a tuple accepts.
-/

namespace SchemaBridge

open Draft07

variable {π : Type}

/-- Comparison by exact value is transitive. -/
theorem Number.le_trans {a b c : Number} (h : a.le b = true) (h' : b.le c = true) :
    a.le c = true := by
  unfold Number.le at h h' ⊢
  split at h
  · next _ _ isA isB =>
    rw [isB] at h'
    split at h'
    · next _ _ isB' isC =>
      obtain rfl := Option.some.inj isB'
      rw [isA, isC, decide_eq_true_eq]
      exact Int.le_trans (of_decide_eq_true h) (of_decide_eq_true h')
    · cases h'
  · cases h

namespace Structure

/-- The structure of a tuple lists its positions, and says of the others what its rest says. -/
theorem Consists.exists_tuple {compiles : Node π → NodeSchema → Prop} {options : DocumentOptions}
    {node : Node π} {adapter : Adapter π} {assembly : Assembly}
    (h : Consists compiles options node adapter .tuple assembly) :
    ∃ positions rest items others, (adapter.positions node).Gives positions ∧
      (adapter.rest node).Gives rest ∧ assembly.body = Structure.tuple items others ∧
      items.length = positions.length ∧ others.isSome = rest.isSome := by
  generalize isTuple : Shape.tuple = shape at h
  cases h with
  | @tuple positions rest cs c gives compiled givesRest others =>
    refine ⟨positions, rest, _, _, gives, givesRest, rfl, ?_, ?_⟩
    · rw [List.length_map, compiled.length_eq]
    · rw [Option.isSome_map]
      cases others <;> rfl
  | date isDate => subst isTuple; simp at isDate
  | typed isWord => subst isTuple; simp [typeShapes] at isWord
  | anything isOpen => subst isTuple; simp at isOpen
  | nothing isEmpty => subst isTuple; simp at isEmpty
  | _ => cases isTuple

theorem get?_tuple_minItems (items : List Json) (rest : Option Json) :
    Table.get? (tuple items rest) "minItems" =
      if items = [] then none else some (.ofNat items.length) := by
  cases items <;> cases rest <;> rfl

theorem get?_tuple_maxItems (items : List Json) (rest : Option Json) :
    Table.get? (tuple items rest) "maxItems" =
      if rest.isSome then none else some (.ofNat items.length) := by
  cases items <;> cases rest <;> rfl

end Structure

namespace Draft07

variable {targets : Targets} {schema : Json.Fields} {values : List Json}
  {written : Option Json} {n : Nat}

/-- An array that a schema accepts has as many items as an arity asks for, if what is written in its
place asks for no fewer. -/
theorem Accepts.le_length (h : Accepts targets schema (.array values))
    (plain : Table.get? schema "$ref" = none)
    (set : Table.get? schema "minItems" = written.or (some (.ofNat n)))
    (stricter : ∀ bound, written = some (.number bound) → Number.le (.integer n) bound = true) :
    n ≤ values.length := by
  obtain ⟨value, isValue⟩ : ∃ value, written.or (some (.ofNat n)) = some value := by
    cases written <;> exact ⟨_, rfl⟩
  rw [isValue] at set
  have holds := ((accepts_iff plain).1 h _ _ (Table.mem_of_get? set)).asserts (by decide)
  obtain ⟨bound, rfl, le⟩ := (assertion_lower_iff (by decide)).1 holds _ rfl
  rcases Option.or_eq_some_iff.1 isValue with isBound | ⟨-, isArity⟩
  · exact le_integer.1 (Number.le_trans (stricter bound isBound) le)
  · cases isArity
    exact le_integer.1 le

/-- An array that a schema accepts has no more items than an arity allows, if what is written in its
place allows no more. -/
theorem Accepts.length_le (h : Accepts targets schema (.array values))
    (plain : Table.get? schema "$ref" = none)
    (set : Table.get? schema "maxItems" = written.or (some (.ofNat n)))
    (stricter : ∀ bound, written = some (.number bound) → bound.le (.integer n) = true) :
    values.length ≤ n := by
  obtain ⟨value, isValue⟩ : ∃ value, written.or (some (.ofNat n)) = some value := by
    cases written <;> exact ⟨_, rfl⟩
  rw [isValue] at set
  have holds := ((accepts_iff plain).1 h _ _ (Table.mem_of_get? set)).asserts (by decide)
  obtain ⟨bound, rfl, le⟩ := (assertion_upper_iff (by decide)).1 holds _ rfl
  rcases Option.or_eq_some_iff.1 isValue with isBound | ⟨-, isArity⟩
  · exact le_integer.1 (Number.le_trans le (stricter bound isBound))
  · cases isArity
    exact le_integer.1 le

end Draft07

namespace Call

variable {context : CompileContext π} {call : Call π} {layers : List (PeeledLayer π)}
    {base : Node π} {baseAdapter : Adapter π} {core : Assembly}

/-- Under any layers of which none is nullable, an array that the schema of a tuple accepts has as
many elements as the tuple has positions, or at least as many if there is a rest: provided that what
the layers say under the keywords of the arity, laid over each other, is no laxer than the arity. -/
theorem CompilesBase.arity (h : CompilesBase context call layers base baseAdapter core)
    (isTuple : baseAdapter.shape? base = some .tuple)
    (solid : ∀ layer ∈ layers, layer.modifier ≠ .nullable)
    (solidBase : baseAdapter.modifier? base ≠ some .nullable) {n : Nat} {hasRest : Bool}
    (lists : ∀ positions, (baseAdapter.positions base).Gives positions → positions.length = n)
    (tells : ∀ rest, (baseAdapter.rest base).Gives rest → rest.isSome = hasRest)
    {written : Constraints}
    (isWritten : Constraints.merged (Chain.records layers base baseAdapter) = written)
    (lower : 0 < n → ∀ bound, written.writtenAt .items "minItems" = some (.number bound) →
      Number.le (.integer n) bound = true)
    (upper : hasRest = false → ∀ bound, written.writtenAt .items "maxItems" = some (.number bound) →
      bound.le (.integer n) = true)
    {targets : Targets} {values : List Json}
    (accepted : Accepts targets (call.answer context).schema (.array values)) :
    n ≤ values.length ∧ (hasRest = false → values.length = n) := by
  obtain ⟨compiles, assembly, consists, plain, keywords⟩ :=
    h.exists_structure isTuple (by decide) solid solidBase
  rw [isWritten] at keywords
  obtain ⟨positions, rest, items, others, gives, givesRest, body, count, isOpen⟩ :=
    consists.exists_tuple
  rw [lists positions gives] at count
  rw [tells rest givesRest] at isOpen
  have least := keywords "minItems" (by decide)
  have most := keywords "maxItems" (by decide)
  rw [body, Structure.get?_tuple_minItems, count] at least
  rw [body, Structure.get?_tuple_maxItems, count, isOpen] at most
  have enough : n ≤ values.length := by
    rcases Nat.eq_zero_or_pos n with rfl | positive
    · exact Nat.zero_le _
    · rw [if_neg (List.ne_nil_of_length_pos (by omega))] at least
      exact accepted.le_length plain least (lower positive)
  refine ⟨enough, fun closed => Nat.le_antisymm ?_ enough⟩
  subst closed
  exact accepted.length_le plain most (upper rfl)

/-- A pair of a text and a number, with a lower count. -/
def countedPair (count : Nat) : Schema Empty :=
  ⟨⟨1⟩, "polyschema_mock::fluent::Fluent", .fluent {
    kind := .tuple [plainNode 2 .string, plainNode 3 .number] none
    details := { constraints := lowerCount count } }⟩

/-- Such a pair in a branded layer. -/
def brandedPair (count : Nat) : Schema Empty := plainNode 0 (.branded (countedPair count) "pair")

/-- A text and a number are accepted up to where the count of the layer ends. -/
private theorem accepts_brandedPair {count : Nat} {values : List Json}
    (enough : count ≤ values.length) (few : values.length ≤ 2)
    (text : ∀ value, values[0]? = some value → hasType "string" value = true)
    (number : ∀ value, values[1]? = some value → hasType "number" value = true) :
    Accepts (named []) ((slotCall (brandedPair count)).answer slotlessContext).schema
      (.array values) := by
  have schema : ((slotCall (brandedPair count)).answer slotlessContext).schema =
      [("type", .string "array"),
        ("items", .array ([Structure.typed "string", Structure.typed "number"].map .object)),
        ("minItems", .ofNat count), ("maxItems", .ofNat 2)] := rfl
  rw [schema]
  refine .keywords rfl fun keyword value mem => ?_
  simp only [List.mem_cons, Prod.mk.injEq, List.not_mem_nil, or_false] at mem
  rcases mem with ⟨rfl, rfl⟩ | ⟨rfl, rfl⟩ | ⟨rfl, rfl⟩ | ⟨rfl, rfl⟩
  · exact .assertion (by decide) rfl
  · refine .positions fun i position value isPosition isValue => ?_
    match i, isPosition with
    | 0, rfl => exact (accepts_typed _).2 (text value isValue)
    | 1, rfl => exact (accepts_typed _).2 (number value isValue)
  · exact .assertion (by decide) ((assertion_minItems _ _).2 enough)
  · exact .assertion (by decide) ((assertion_maxItems _ _).2 few)

private theorem brandedPair_compilesBase (count : Nat) : ∃ core,
    CompilesBase slotlessContext (slotCall (brandedPair count))
      [⟨brandedPair count, slotless, .branded⟩] (countedPair count) slotless core :=
  ⟨_, .intro (t := _) List.not_mem_nil rfl
    ⟨rfl, .layer rfl ⟨0, rfl⟩ rfl (.base rfl), Nat.le_of_ble_eq_true rfl,
      (by decide : [(⟨0⟩ : Identity), ⟨1⟩].Nodup), fun _ _ => List.not_mem_nil, rfl, ⟨_, rfl, rfl⟩,
      ⟨_, [], rfl⟩⟩ rfl⟩

/-- A pair with a lower count of two is accepted, and has two elements. -/
theorem brandedPair_arity :
    Accepts (named []) ((slotCall (brandedPair 2)).answer slotlessContext).schema
        (.array [.string "x", .ofNat 1]) ∧
      2 ≤ [Json.string "x", .ofNat 1].length ∧
        (false = false → [Json.string "x", .ofNat 1].length = 2) := by
  obtain ⟨core, compiles⟩ := brandedPair_compilesBase 2
  have accepted : Accepts (named []) ((slotCall (brandedPair 2)).answer slotlessContext).schema
      (.array [.string "x", .ofNat 1]) := by
    refine accepts_brandedPair (Nat.le_refl _) (Nat.le_refl _) ?_ ?_
    all_goals
      rintro _ ⟨⟩
      rfl
  have solid : ∀ layer ∈ [(⟨brandedPair 2, slotless, .branded⟩ : PeeledLayer (Payload Empty))],
      layer.modifier ≠ .nullable := by simp
  refine ⟨accepted, compiles.arity rfl solid (by exact nofun) ?_ ?_ rfl ?_ ?_ accepted⟩
  · rintro _ ⟨_, ⟨⟩⟩
    rfl
  · rintro _ ⟨_, ⟨⟩⟩
    rfl
  · rintro - bound isBound
    cases isBound
    exact le_integer.2 (Nat.le_refl _)
  · rintro - bound ⟨⟩

/-- With a lower count of one, a pair may have a single element. -/
theorem countedPair_loosened :
    (slotless.positions (countedPair 1)).Gives [plainNode 2 .string, plainNode 3 .number] ∧
      (slotless.rest (countedPair 1)).Gives none ∧
      Accepts (named []) ((slotCall (brandedPair 1)).answer slotlessContext).schema
        (.array [.string "x"]) := by
  refine ⟨⟨0, rfl⟩, ⟨0, rfl⟩, accepts_brandedPair (Nat.le_refl _) (by decide) ?_ ?_⟩
  · rintro _ ⟨⟩
    rfl
  · rintro _ ⟨⟩

end Call

end SchemaBridge
