import SchemaBridge.Proofs.Plan.Parts
import SchemaBridge.Proofs.Plan.Shapes

/-!
# Structures of their own

The structure of most nodes is written with keywords of their shape. Two kinds of nodes have none of
their own and stand for what is inside them: a promise has the structure of what it is about, and a
union of one option that of the option. Everything else has the family of its shape, is no
reference, and has no keyword that layers write but a format, if it is a date, and the sizes of a
tuple.

## Main definitions

* `Structure.keywordLists` : the keywords that structures may have.
* `Structure.Embeds` : a node stands for what is inside it.
* `Structure.Own` : a structure that is written with keywords of a shape.

## Main results

* `Structure.Consists.keys_cases` : the keywords of a structure, unless it is what a part compiles
  to.
* `Structure.isOwn_or_embeds` : a node has a structure of its own or stands for a part.
-/

namespace SchemaBridge.Structure

variable {π : Type}

/-! ### Keywords of structures -/

/-- The keywords that structures may have, in their order, but for those of a date. -/
def keywordLists : List (List String) :=
  [[], ["const"], ["not"], ["enum"], ["type"], ["anyOf"], ["allOf"], ["type", "maxItems"],
    ["type", "items"], ["type", "items", "minItems", "maxItems"],
    ["type", "items", "additionalItems", "minItems"], ["type", "uniqueItems"],
    ["type", "uniqueItems", "items"], ["type", "properties"], ["type", "properties", "required"],
    ["type", "propertyNames"], ["type", "additionalProperties"],
    ["type", "propertyNames", "additionalProperties"]]

theorem mem_keywordLists {schema : Json.Fields} (keywords : List String)
    (same : Table.keys schema = keywords) (mem : keywords ∈ keywordLists) :
    Table.keys schema ∈ keywordLists := same ▸ mem

theorem keys_tuple_mem (items : List Json) (rest : Option Json) :
    Table.keys (tuple items rest) ∈ keywordLists := by
  cases items with
  | nil =>
    cases rest with
    | none => exact mem_keywordLists ["type", "maxItems"] rfl (by decide)
    | some rest => exact mem_keywordLists ["type", "items"] rfl (by decide)
  | cons first others =>
    cases rest with
    | none => exact mem_keywordLists ["type", "items", "minItems", "maxItems"] rfl (by decide)
    | some rest =>
      exact mem_keywordLists ["type", "items", "additionalItems", "minItems"] rfl (by decide)

theorem keys_union_mem (cs : List NodeSchema) : Table.keys (union cs) ∈ keywordLists := by
  unfold union
  split
  · exact mem_keywordLists ["not"] rfl (by decide)
  · exact mem_keywordLists ["anyOf"] rfl (by decide)

theorem keys_object_mem (entries : List (String × NodeSchema)) :
    Table.keys (object entries) ∈ keywordLists := by
  unfold object
  dsimp only
  split
  · exact mem_keywordLists ["type", "properties"] rfl (by decide)
  · exact mem_keywordLists ["type", "properties", "required"] rfl (by decide)

theorem keys_keyed_mem (key value : Option NodeSchema) :
    Table.keys (keyed key value) ∈ keywordLists := by
  unfold keyed
  generalize (key.filter fun k => restrictsKeys k.schema).map NodeSchema.toJson = key
  cases key with
  | none =>
    cases value with
    | none => exact mem_keywordLists ["type"] rfl (by decide)
    | some value => exact mem_keywordLists ["type", "additionalProperties"] rfl (by decide)
  | some key =>
    cases value with
    | none => exact mem_keywordLists ["type", "propertyNames"] rfl (by decide)
    | some value =>
      exact mem_keywordLists ["type", "propertyNames", "additionalProperties"] rfl (by decide)

/-- A structure is what a part compiles to, or that of a date, or else has one of the lists of
keywords. -/
theorem Consists.keys_cases {compiles : Node π → NodeSchema → Prop} {options : DocumentOptions}
    {node : Node π} {adapter : Adapter π} {shape : Shape} {assembly : Assembly}
    (h : Consists compiles options node adapter shape assembly) :
    (shape ∈ [.promise, .union] ∧ ∃ part c, compiles part c ∧ assembly.body = c.schema) ∨
      (shape ∈ [.date, .instanceOf] ∧ assembly.body = Structure.date options) ∨
        Table.keys assembly.body ∈ keywordLists := by
  cases h with
  | promise _ compiled | only _ compiled => exact .inl ⟨by decide, _, _, compiled, rfl⟩
  | date isDate =>
    refine .inr (.inl ⟨?_, rfl⟩)
    rcases isDate with rfl | ⟨rfl, -⟩ <;> decide
  | literal =>
    refine .inr (.inr ?_)
    cases adapter.literal node with
    | none => exact mem_keywordLists [] rfl (by decide)
    | some value => exact mem_keywordLists ["const"] rfl (by decide)
  | noValues | nothing => exact .inr (.inr (mem_keywordLists ["not"] rfl (by decide)))
  | enumeration => exact .inr (.inr (mem_keywordLists ["enum"] rfl (by decide)))
  | typed => exact .inr (.inr (mem_keywordLists ["type"] rfl (by decide)))
  | anything => exact .inr (.inr (mem_keywordLists [] rfl (by decide)))
  | union => exact .inr (.inr (keys_union_mem _))
  | intersection =>
    refine .inr (.inr ?_)
    dsimp only [Structure.intersection]
    split
    · exact mem_keywordLists [] rfl (by decide)
    · exact mem_keywordLists ["allOf"] rfl (by decide)
  | tuple => exact .inr (.inr (keys_tuple_mem _ _))
  | object => exact .inr (.inr (keys_object_mem _))
  | @array _ c =>
    refine .inr (.inr ?_)
    cases c with
    | none => exact mem_keywordLists ["type"] rfl (by decide)
    | some c => exact mem_keywordLists ["type", "items"] rfl (by decide)
  | @set _ c =>
    refine .inr (.inr ?_)
    cases c with
    | none => exact mem_keywordLists ["type", "uniqueItems"] rfl (by decide)
    | some c => exact mem_keywordLists ["type", "uniqueItems", "items"] rfl (by decide)
  | record | map => exact .inr (.inr (keys_keyed_mem _ _))

/-- The bounds of a structure are those of its shape, unless it may be what a part compiles to. -/
theorem Consists.bounds_eq {compiles : Node π → NodeSchema → Prop} {options : DocumentOptions}
    {node : Node π} {adapter : Adapter π} {shape : Shape} {assembly : Assembly}
    (h : Consists compiles options node adapter shape assembly)
    (closed : shape ∉ [.promise, .union]) : assembly.bounds = shape.bounds := by
  cases h with
  | promise | only | union => exact absurd (by decide) closed
  | _ => rfl

/-! ### Nodes that stand for what is inside them -/

/-- The family of keywords that the shape of a node says. -/
def family (adapter : Adapter π) (node : Node π) : BoundsFamily :=
  ((adapter.shape? node).map Shape.bounds).getD .value

/-- The structure of a node is that of one part: what a promise is about, or the only option of a
union. The part is told at this moment, and the next unused identity is then another one. -/
inductive Embeds (adapter : Adapter π) (node : Node π) (supply : Nat) : Node π → Nat → Prop where
  | awaited {part : Node π} {next : Nat} (seen : adapter.shape? node = some .promise)
      (gives : adapter.awaited node supply = (.ok (some part), next)) :
      Embeds adapter node supply part next
  | only {part : Node π} {next : Nat} (seen : adapter.shape? node = some .union)
      (gives : adapter.options node supply = (.ok [part], next)) :
      Embeds adapter node supply part next

/-- A date says its format itself, and so does an instance of the class of dates. -/
def ownFormat? (options : DocumentOptions) (adapter : Adapter π) (node : Node π) : Option String :=
  match adapter.shape? node with
  | some .date => some options.dateFormat
  | some .instanceOf =>
    if adapter.className node = some "Date" then some options.dateFormat else none
  | _ => none

/-- An assembly has the structure of a node that does not stand for a part. -/
structure Own (options : DocumentOptions) (adapter : Adapter π) (node : Node π) (f : Assembly) :
    Prop where
  keys : Table.keys f.body ∈ ["type", "format"] :: keywordLists
  bounds : f.bounds = family adapter node
  format : Table.get? f.body "format" = (ownFormat? options adapter node).map .string

section

variable {context : CompileContext π} {child : Node π → CompileM NodeSchema} {node : Node π}
  {adapter : Adapter π} {s t : Ledger} {assembly : Assembly} {options : DocumentOptions}

/-- A structure of its own has none of the keywords that no structure has. -/
theorem Own.get?_eq_none (h : Own options adapter node assembly) {keyword : String}
    (other : ∀ keywords ∈ ["type", "format"] :: keywordLists, keyword ∉ keywords) :
    Table.get? assembly.body keyword = none :=
  (Table.get?_eq_none_iff ..).2 (other _ h.keys)

/-- Keywords of structures without a format are those of a node that says none. -/
theorem own_of_keys (mem : Table.keys assembly.body ∈ keywordLists)
    (bounds : assembly.bounds = family adapter node)
    (silent : ownFormat? options adapter node = none) :
    Own options adapter node assembly where
  keys := List.mem_cons_of_mem _ mem
  bounds := bounds
  format := by
    have unformatted : ∀ keywords ∈ keywordLists, "format" ∉ keywords := by decide
    rw [silent, (Table.get?_eq_none_iff ..).2 (unformatted _ mem)]
    rfl

/-- A node has a structure of its own, unless it stands for what is inside it. -/
theorem isOwn_or_embeds
    (runs : Structure.compile context child node adapter s = (.ok assembly, t)) :
    Own context.options adapter node assembly ∨
      ∃ part next, Embeds adapter node s.supply part next := by
  rw [Structure.compile] at runs
  cases seen : adapter.shape? node with
  | none =>
    rw [seen] at runs
    obtain rfl := Except.ok.inj (Prod.mk.inj runs).1
    exact .inl (own_of_keys (mem_keywordLists [] rfl (by decide)) (by rw [family, seen]; rfl)
      (by rw [ownFormat?, seen]))
  | some shape =>
    have isFamily : family adapter node = shape.bounds := by
      rw [family, seen]
      rfl
    rw [seen] at runs
    have consists := consists_of_yields (yields_of_carryOut runs)
    cases shape with
    | promise =>
      rcases given : adapter.awaited node s.supply with ⟨error | _ | part, next⟩
      · cases (carryOut_ask_of_error _ _ given).symm.trans runs
      · obtain ⟨⟩ := (carryOut_ask_of_ok _ _ given).symm.trans runs
        exact .inl (own_of_keys (mem_keywordLists [] rfl (by decide)) isFamily.symm
          (by rw [ownFormat?, seen]))
      · exact .inr ⟨part, next, .awaited seen given⟩
    | union =>
      have silent : ownFormat? context.options adapter node = none := by rw [ownFormat?, seen]
      rcases given : adapter.options node s.supply with ⟨error | parts, next⟩
      · cases (carryOut_ask_of_error _ _ given).symm.trans runs
      · replace runs := (carryOut_ask_of_ok _ _ given).symm.trans runs
        obtain _ | ⟨part, _ | ⟨second, rest⟩⟩ := parts
        · obtain ⟨⟩ := runs
          exact .inl (own_of_keys (keys_union_mem []) isFamily.symm silent)
        · exact .inr ⟨part, next, .only seen given⟩
        · have yields := (Plan.yields_bind (Plan.parts _) _ _).1 (yields_of_carryOut runs)
          obtain ⟨cs, compiled, yields⟩ := yields
          obtain _ | ⟨_, _ | ⟨_, _⟩⟩ := (Plan.yields_parts _ _).1 compiled
          obtain rfl := (Plan.yields_pure _ _).1 yields
          refine .inl (own_of_keys ?_ isFamily.symm silent)
          dsimp only
          exact keys_union_mem _
    | date =>
      obtain ⟨⟩ := runs
      refine .inl ⟨List.mem_cons_self, isFamily.symm, ?_⟩
      rw [ownFormat?, seen]
      rfl
    | instanceOf =>
      obtain ⟨⟩ := runs
      by_cases isDate : adapter.className node = some "Date"
      · refine .inl ⟨?_, isFamily.symm, ?_⟩
        · rw [if_pos isDate]
          exact List.mem_cons_self
        · rw [if_pos isDate, ownFormat?, seen]
          dsimp only
          rw [if_pos isDate]
          rfl
      · refine .inl (own_of_keys ?_ isFamily.symm ?_)
        · rw [if_neg isDate]
          exact mem_keywordLists ["type"] rfl (by decide)
        · rw [ownFormat?, seen]
          exact if_neg isDate
    | _ =>
      have bounds := consists.bounds_eq (by decide)
      rcases consists.keys_cases with ⟨embeds, -⟩ | ⟨isDate, -⟩ | mem
      · exact absurd embeds (by decide)
      · exact absurd isDate (by decide)
      · exact .inl (own_of_keys mem (bounds.trans isFamily.symm) (by rw [ownFormat?, seen]))

/-- The structure of a node has the family of its shape, and is no reference, unless the node stands
for what is inside it. -/
theorem own_or_embeds (runs : Structure.compile context child node adapter s = (.ok assembly, t)) :
    (Table.get? assembly.body "$ref" = none ∧ assembly.bounds = family adapter node) ∨
    ∃ part next, Embeds adapter node s.supply part next :=
  (isOwn_or_embeds runs).imp_left fun own => ⟨own.get?_eq_none (by decide), own.bounds⟩

/-- A node that stands for a part has the family of plain values. -/
theorem family_of_embeds {supply next : Nat} {part : Node π}
    (h : Embeds adapter node supply part next) : family adapter node = .value := by
  rw [family]
  cases h with
  | awaited seen | only seen =>
    rw [seen]
    rfl

/-- The structure of a node that stands for a part is what the part compiles to. -/
theorem compile_of_embeds {next : Nat} {part : Node π}
    (h : Embeds adapter node s.supply part next) :
    Structure.compile context child node adapter s =
      (.ok
        { body := (child part { s with supply := next }).1.schema
          bounds := (child part { s with supply := next }).1.bounds },
        (child part { s with supply := next }).2) := by
  rw [Structure.compile]
  cases h with
  | awaited seen gives | only seen gives =>
    rw [seen]
    exact carryOut_ask_of_ok _ _ gives

end

end SchemaBridge.Structure
