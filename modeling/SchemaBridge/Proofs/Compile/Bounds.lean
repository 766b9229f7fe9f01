import SchemaBridge.Proofs.Chain.Families
import SchemaBridge.Proofs.Compile.Widening
import SchemaBridge.Proofs.Draft07.Writing
import SchemaBridge.Proofs.Plan.Own

/-!
# Bounds, keyword by keyword

A record of constraints may limit a size in two ways: by a bound, whose keyword depends on the shape
of the node, and by a count. Records are laid over each other field by field, and only the result is
written. Where a bound and a count go under the same keyword the count is written last. So a keyword
has the value of the outermost count, and only if there is none that of the outermost bound: a layer
that sets a bound does not win over a count that was set further in.

## Main definitions

* `Constraints.boundAt`, `Constraints.countAt`, `Constraints.writtenAt` : what a record says under a
  keyword.
* `Constraints.Overruled` : the outermost record that says anything under a keyword has no say.
* `Call.CompilesBase` : a call compiles the base of its chain, under these layers.
* `Call.StandsFor` : the base of a call stands for a part, which another call compiles.

## Main results

* `Constraints.countAt_merged`, `Constraints.boundAt_merged` : each way for itself, the outermost
  record wins.
* `Constraints.merged_outermost_iff` : when the outermost record wins under a keyword.
* `Call.CompilesBase.exists_structure` : the bound keywords of a schema without a nullable layer.
* `Call.boundValue_iff` : the value that a bound keyword has in a compiled schema.
-/

namespace SchemaBridge

variable {π : Type}

/-! ### Things laid over each other -/

private theorem findSome?_cons_eq_or {α β : Type} (f : α → Option β) (a : α) (rest : List α) :
    (a :: rest).findSome? f = (f a).or (rest.findSome? f) := by
  rw [List.findSome?_cons]
  cases f a <;> rfl

/-- If things are laid over each other, a field that each one replaces if it sets it is that of the
outermost one that does. -/
theorem findSome?_foldr {α β : Type} {cover : α → α → α} {start : α} {field : α → Option β}
    (unset : field start = none)
    (laid : ∀ inner outer, field (cover inner outer) = (field outer).or (field inner))
    (l : List α) :
    field (l.foldr (fun outer inner => cover inner outer) start) = l.findSome? field := by
  induction l with
  | nil => exact unset
  | cons outer rest ih => rw [List.foldr_cons, laid, ih, findSome?_cons_eq_or]

/-! ### What records say under a keyword -/

/-- The keywords of bounds and counts. -/
def boundKeywords : List String :=
  ["minimum", "maximum", "minLength", "maxLength", "minItems", "maxItems", "minProperties",
    "maxProperties"]

namespace Constraints

section

variable (family : BoundsFamily) (keyword : String)

/-- What the bounds of a record say under a keyword. -/
def boundAt (c : Constraints) : Option Json :=
  if keyword = family.keywords.1 then c.min.map Assembly.boundNumber
  else if keyword = family.keywords.2 then c.max.map Assembly.boundNumber
  else none

/-- What the counts of a record say under a keyword. -/
def countAt (c : Constraints) : Option Json :=
  if keyword = family.countKeywords.1 then c.minLength.map .ofNat
  else if keyword = family.countKeywords.2 then c.maxLength.map .ofNat
  else none

/-- What a record alone says under a keyword. -/
def writtenAt (c : Constraints) : Option Json :=
  Table.get? (Assembly.writeConstraints c family []) keyword

/-- Records laid over each other, the outermost first. -/
def merged (records : List Constraints) : Constraints :=
  records.foldr (fun outer inner => inner.coveredBy outer) .empty

/-- The outermost record that says anything under a keyword says it by a bound only, and one further
in says something else by a count. -/
inductive Overruled : List Constraints → Prop where
  | here {c : Constraints} {inner : List Constraints} {bound count : Json}
      (bounds : c.boundAt family keyword = some bound) (uncounted : c.countAt family keyword = none)
      (counts : inner.findSome? (countAt family keyword) = some count) (other : count ≠ bound) :
      Overruled (c :: inner)
  | inside {c : Constraints} {inner : List Constraints}
      (silent : c.writtenAt family keyword = none) (rest : Overruled inner) :
      Overruled (c :: inner)

end

variable {family : BoundsFamily} {keyword : String}

/-- A bound keyword holds the count, or else the bound, or else what was there before. -/
theorem get?_writeConstraints (c : Constraints) (isBound : keyword ∈ boundKeywords)
    (schema : Json.Fields) : Table.get? (Assembly.writeConstraints c family schema) keyword =
      (c.countAt family keyword).or
        ((c.boundAt family keyword).or (Table.get? schema keyword)) := by
  simp only [boundKeywords, List.mem_cons, List.not_mem_nil, or_false] at isBound
  rcases isBound with rfl | rfl | rfl | rfl | rfl | rfl | rfl | rfl <;> cases family <;>
    simp [Assembly.writeConstraints, Table.get?_putSome, countAt, boundAt, BoundsFamily.keywords,
      BoundsFamily.countKeywords]

theorem writtenAt_eq (c : Constraints) (isBound : keyword ∈ boundKeywords) :
    c.writtenAt family keyword = (c.countAt family keyword).or (c.boundAt family keyword) := by
  rw [writtenAt, get?_writeConstraints c isBound, Table.get?_nil, Option.or_none]

theorem boundAt_coveredBy (inner outer : Constraints) :
    (inner.coveredBy outer).boundAt family keyword =
      (outer.boundAt family keyword).or (inner.boundAt family keyword) := by
  unfold boundAt coveredBy
  split
  · exact Option.map_or
  · split
    · exact Option.map_or
    · rfl

theorem countAt_coveredBy (inner outer : Constraints) :
    (inner.coveredBy outer).countAt family keyword =
      (outer.countAt family keyword).or (inner.countAt family keyword) := by
  unfold countAt coveredBy
  split
  · exact Option.map_or
  · split
    · exact Option.map_or
    · rfl

/-- Of the bounds under a keyword the outermost one remains. -/
theorem boundAt_merged (records : List Constraints) :
    (merged records).boundAt family keyword = records.findSome? (boundAt family keyword) :=
  findSome?_foldr (by simp [boundAt, empty]) boundAt_coveredBy records

/-- Of the counts under a keyword the outermost one remains. -/
theorem countAt_merged (records : List Constraints) :
    (merged records).countAt family keyword = records.findSome? (countAt family keyword) :=
  findSome?_foldr (by simp [countAt, empty]) countAt_coveredBy records

/-- A merged record says something under a keyword if one of the records does. -/
theorem isSome_writtenAt_merged (records : List Constraints) (isBound : keyword ∈ boundKeywords) :
    ((merged records).writtenAt family keyword).isSome ↔
      ∃ c ∈ records, (c.writtenAt family keyword).isSome := by
  rw [writtenAt_eq _ isBound, countAt_merged, boundAt_merged]
  simp only [writtenAt_eq _ isBound, Option.isSome_or, Bool.or_eq_true, List.findSome?_isSome_iff,
    ← exists_or, ← and_or_left]

/-- A merged record says what the outermost record says that says anything, unless that one is
overruled. -/
theorem merged_outermost_iff (records : List Constraints) (isBound : keyword ∈ boundKeywords) :
    (merged records).writtenAt family keyword = records.findSome? (writtenAt family keyword) ↔
      ¬ Overruled family keyword records := by
  rw [writtenAt_eq _ isBound, countAt_merged, boundAt_merged]
  induction records with
  | nil => exact iff_of_true rfl nofun
  | cons outer inner ih =>
    rw [findSome?_cons_eq_or, findSome?_cons_eq_or, findSome?_cons_eq_or, writtenAt_eq _ isBound]
    cases counts : outer.countAt family keyword with
    | some count =>
      refine iff_of_true rfl ?_
      rintro (⟨_, uncounted, _, _⟩ | ⟨silent, _⟩)
      · cases counts.symm.trans uncounted
      · rw [writtenAt_eq _ isBound, counts] at silent
        cases silent
    | none =>
      cases bounds : outer.boundAt family keyword with
      | none =>
        have silent : outer.writtenAt family keyword = none := by
          rw [writtenAt_eq _ isBound, counts, bounds]
          rfl
        refine ih.trans (not_congr ⟨.inside silent, ?_⟩)
        rintro (⟨bounds', _, _, _⟩ | ⟨_, rest⟩)
        · cases bounds.symm.trans bounds'
        · exact rest
      | some bound =>
        -- The bound of the outermost record is only written if no record further in counts.
        have overruled : Overruled family keyword (outer :: inner) ↔
            ∃ count, inner.findSome? (countAt family keyword) = some count ∧ count ≠ bound := by
          constructor
          · rintro (⟨bounds', _, found, other⟩ | ⟨silent, _⟩)
            · obtain rfl := Option.some.inj (bounds.symm.trans bounds')
              exact ⟨_, found, other⟩
            · rw [writtenAt_eq _ isBound, counts, bounds] at silent
              cases silent
          · rintro ⟨count, found, other⟩
            exact .here bounds counts found other
        rw [overruled]
        cases inner.findSome? (countAt family keyword) with
        | none => simp
        | some count => simp

end Constraints

/-! ### Bounds in a compiled schema -/

namespace Compile

/-- The value of a keyword in a schema, or, if the schema itself has none, beside its null
branch. -/
def boundValue (schema : Json.Fields) (keyword : String) : Option Json :=
  (Table.get? schema keyword).or (Table.get? (besideNull schema) keyword)

end Compile

namespace Assembly

/-- A schema that has another keyword than `anyOf` becomes the first of two alternatives. -/
theorem orNull_of_keyword {schema : Json.Fields} {keyword : String} {value : Json}
    (stands : Table.get? schema keyword = some value) (other : keyword ≠ "anyOf") :
    orNull schema = [("anyOf", .array [.object schema, nullSchema])] := by
  unfold orNull
  split
  · rw [Table.get?_cons, if_neg (Ne.symm other)] at stands
    cases stands
  · rfl

/-- The constraints of an assembly that is no reference stand in its schema, in front of the null
branch if there is one. -/
theorem boundValue_schema {f : Assembly} (plain : Table.get? f.body "$ref" = none)
    {keyword : String} (isBound : keyword ∈ boundKeywords) {value : Json}
    (written : f.constraints.writtenAt f.bounds keyword = some value) :
    Compile.boundValue f.schema keyword = some value := by
  have stands : Table.get? f.constrained keyword = some value := by
    rw [constrained_of_plain plain, f.constraints.get?_writeConstraints isBound, ← Option.or_assoc,
      ← Constraints.writtenAt_eq _ isBound, written]
    rfl
  have other : keyword ≠ "anyOf" := ne_of_mem_of_not_mem isBound (by decide)
  have unannotated : keyword ∉ ["title", "description", "default", "examples", "deprecated"] := by
    have : ∀ word ∈ boundKeywords,
        word ∉ ["title", "description", "default", "examples", "deprecated"] := by decide
    exact this keyword isBound
  rw [Compile.boundValue, schema, Annotations.get?_write _ _ unannotated]
  cases f.nullable with
  | false =>
    rw [if_neg Bool.false_ne_true, stands]
    rfl
  | true =>
    rw [if_pos rfl, orNull_of_keyword stands other, Table.get?_cons, if_neg (Ne.symm other),
      Compile.besideNull, Annotations.get?_write _ _ (by decide), Table.get?_cons, if_pos rfl]
    exact stands

/-- With a layer an assembly admits `null` if it did, or if the layer is nullable. -/
theorem addLayer_nullable_iff {f : Assembly} {adapter : Adapter π} {node : Node π}
    {modifier : Option Modifier} : (f.addLayer adapter node modifier).nullable = true ↔
      modifier = some .nullable ∨ f.nullable = true := by
  unfold addLayer
  dsimp only
  split
  next nullable => exact iff_of_true rfl (.inl nullable)
  next solid => exact (or_iff_right solid).symm

/-- Any other keyword of an assembly that is neither a reference nor nullable stands beside its
constraints. -/
theorem get?_schema {f : Assembly} (plain : Table.get? f.body "$ref" = none)
    (solid : f.nullable = false) {keyword : String}
    (unannotated : keyword ∉ Annotations.keywords) :
    Table.get? f.schema keyword =
      Table.get? (writeConstraints f.constraints f.bounds f.body) keyword := by
  rw [schema, solid, if_neg Bool.false_ne_true, Annotations.get?_write _ _ unannotated,
    constrained_of_plain plain]

/-- An assembly that is neither a reference nor nullable has a schema that is no reference. -/
theorem plain_schema {f : Assembly} (plain : Table.get? f.body "$ref" = none)
    (solid : f.nullable = false) : Table.get? f.schema "$ref" = none := by
  rw [get?_schema plain solid (by decide), get?_writeConstraints_of_notMem _ _ _ (by decide), plain]

/-- A bound keyword of an assembly that is neither a reference nor nullable has the value that the
constraints say, or else the one in the structure. -/
theorem get?_schema_of_bound {f : Assembly} (plain : Table.get? f.body "$ref" = none)
    (solid : f.nullable = false) {keyword : String} (isBound : keyword ∈ boundKeywords) :
    Table.get? f.schema keyword =
      (f.constraints.writtenAt f.bounds keyword).or (Table.get? f.body keyword) := by
  have unannotated : ∀ word ∈ boundKeywords, word ∉ Annotations.keywords := by decide
  rw [get?_schema plain solid (unannotated keyword isBound),
    f.constraints.get?_writeConstraints isBound, ← Option.or_assoc,
    ← Constraints.writtenAt_eq _ isBound]

end Assembly

namespace Chain

/-- Layers around an assembly admit `null` if it does, or if one of them is nullable. -/
theorem wrap_nullable_iff {layers : List (PeeledLayer π)} {core : Assembly} :
    (wrap layers core).nullable = true ↔
      (∃ layer ∈ layers, layer.modifier = .nullable) ∨ core.nullable = true := by
  induction layers with
  | nil => simp [wrap]
  | cons layer rest ih =>
    refine (Assembly.addLayer_nullable_iff (f := wrap rest core)).trans ?_
    rw [ih, Option.some_inj]
    simp [or_assoc]

/-- The records of constraints along a chain, the outermost first: those of its layers, and that of
its base. -/
def records (layers : List (PeeledLayer π)) (base : Node π) (baseAdapter : Adapter π) :
    List Constraints :=
  layers.filterMap (fun layer => layer.adapter.constraints layer.node) ++
    (baseAdapter.constraints base).toList

theorem records_cons (layer : PeeledLayer π) (rest : List (PeeledLayer π)) (base : Node π)
    (baseAdapter : Adapter π) : records (layer :: rest) base baseAdapter =
      (layer.adapter.constraints layer.node).toList ++ records rest base baseAdapter := by
  rw [records, List.filterMap_cons]
  cases layer.adapter.constraints layer.node <;> rfl

/-- The constraints of a whole chain are the records along it, laid over each other. -/
theorem constraints_wrap {core : Assembly} (free : core.constraints = .empty)
    (layers : List (PeeledLayer π)) (base : Node π) (baseAdapter : Adapter π)
    (modifier : Option Modifier) :
    (wrap layers (core.addLayer baseAdapter base modifier)).constraints =
      Constraints.merged (records layers base baseAdapter) := by
  induction layers with
  | nil =>
    rw [wrap, List.foldr_nil, Assembly.addLayer_constraints, free, records]
    cases baseAdapter.constraints base <;> rfl
  | cons layer rest ih =>
    refine (Assembly.addLayer_constraints (wrap rest _) _ _ _).trans ?_
    rw [ih, records_cons]
    cases layer.adapter.constraints layer.node <;> rfl

end Chain

open Chain Ledger Compile

namespace Call

/-- A call compiles the base of its chain under these layers, to this assembly. -/
inductive CompilesBase (context : CompileContext π) :
    Call π → List (PeeledLayer π) → Node π → Adapter π → Assembly → Prop where
  | intro {levels : Nat} {node base : Node π} {adapter baseAdapter : Adapter π}
      {layers : List (PeeledLayer π)} {isOptional : Bool} {modifier : Option Modifier}
      {ids : List Identity} {s t u : Ledger} {assembly : Assembly}
      (new : node.id ∉ s.active) (claims : (context.registry.resolve node).value = some adapter)
      (peels : Peels context node adapter (resolved context ⟨levels + 1, node, s⟩) layers isOptional
        (.ok (.base base baseAdapter modifier)) ids t)
      (runs : Structure.compile context (Compile.node context levels) base baseAdapter
        (noted base baseAdapter ids t) = (.ok assembly, u)) :
      CompilesBase context ⟨levels + 1, node, s⟩ layers base baseAdapter
        (assembly.addLayer baseAdapter base modifier)

/-- The base of a call stands for a part, and the call makes another one for it. -/
inductive StandsFor (context : CompileContext π) : Call π → Call π → Prop where
  | intro {levels next : Nat} {node base part : Node π} {adapter baseAdapter : Adapter π}
      {layers : List (PeeledLayer π)} {isOptional : Bool} {modifier : Option Modifier}
      {ids : List Identity} {s t : Ledger} (new : node.id ∉ s.active)
      (claims : (context.registry.resolve node).value = some adapter)
      (peels : Peels context node adapter (resolved context ⟨levels + 1, node, s⟩) layers isOptional
        (.ok (.base base baseAdapter modifier)) ids t)
      (embeds : Structure.Embeds baseAdapter base t.supply part next) :
      StandsFor context ⟨levels + 1, node, s⟩
        ⟨levels, part, { noted base baseAdapter ids t with supply := next }⟩

variable {context : CompileContext π} {call part : Call π} {layers : List (PeeledLayer π)}
  {base : Node π} {baseAdapter : Adapter π} {core : Assembly}

/-- The part that a base stands for is told by its adapter. -/
theorem CompilesBase.embeds (h : CompilesBase context call layers base baseAdapter core)
    (stands : StandsFor context call part) :
    ∃ supply next, Structure.Embeds baseAdapter base supply part.node next := by
  obtain ⟨new, claims, peels, runs⟩ := h
  obtain ⟨-, claims', peels', embeds⟩ := stands
  obtain ⟨-, -, rfl, rfl, -⟩ := peels_base_unique claims peels claims' peels'
  exact ⟨_, _, embeds⟩

/-- What a call answers without a nullable layer, if the shape of the base of its chain never stands
for what is inside: no reference, and under a bound keyword what the records along the chain say,
laid over each other, or else what the structure of the base says. -/
theorem CompilesBase.exists_structure (h : CompilesBase context call layers base baseAdapter core)
    {shape : Shape} (isShape : baseAdapter.shape? base = some shape)
    (closed : shape ∉ [.promise, .union]) (solid : ∀ layer ∈ layers, layer.modifier ≠ .nullable)
    (solidBase : baseAdapter.modifier? base ≠ some .nullable) :
    ∃ compiles assembly,
      Structure.Consists compiles context.options base baseAdapter shape assembly ∧
      Table.get? (call.answer context).schema "$ref" = none ∧
      ∀ keyword ∈ boundKeywords, Table.get? (call.answer context).schema keyword =
        ((Constraints.merged (Chain.records layers base baseAdapter)).writtenAt shape.bounds
          keyword).or (Table.get? assembly.body keyword) := by
  obtain @⟨levels, node, base, adapter, baseAdapter, layers, isOptional, modifier, ids, s, t, u,
    assembly, new, claims, peels, runs⟩ := h
  have yields := runs
  rw [Structure.compile, isShape] at yields
  have consists := Structure.consists_of_yields (Structure.yields_of_carryOut yields)
  obtain ⟨plain, -⟩ := (Structure.own_or_embeds runs).resolve_right <| by
    rintro ⟨part, next, ⟨seen, -⟩ | ⟨seen, -⟩⟩
    all_goals
      obtain rfl := Option.some.inj (isShape.symm.trans seen)
      exact closed (by decide)
  have family := consists.bounds_eq closed
  have notNullable : modifier ≠ some .nullable := by
    rintro rfl
    obtain ⟨_, atBase, -⟩ := peels.unwraps.atBase claims
    cases atBase with
    | hollow wrapped => exact solidBase wrapped
  refine ⟨_, assembly, consists, ?_⟩
  let whole := wrap layers (assembly.addLayer baseAdapter base modifier)
  have body : whole.body = assembly.body := by rw [wrap_body, Assembly.addLayer_body]
  have isFamily : whole.bounds = shape.bounds := by
    rw [wrap_bounds, Assembly.addLayer_bounds, family]
  have constraints : whole.constraints = Constraints.merged (records layers base baseAdapter) :=
    constraints_wrap (Structure.constraints_of_compile runs) layers base baseAdapter modifier
  have isSolid : whole.nullable = false := by
    obtain ⟨_, _, rfl⟩ := Structure.bare_of_compile runs
    rw [Bool.eq_false_iff, ne_eq, wrap_nullable_iff, Assembly.addLayer_nullable_iff]
    rintro (⟨layer, mem, nullable⟩ | nullable | ⟨⟨⟩⟩)
    · exact solid layer mem nullable
    · exact notNullable nullable
  rw [answer_of_core new claims peels (.built runs)]
  rw [← body] at plain
  refine ⟨Assembly.plain_schema plain isSolid, fun keyword isBound => ?_⟩
  rw [Assembly.get?_schema_of_bound plain isSolid isBound, constraints, isFamily, body]

/-- If the base of a chain does not stand for what is inside it, a bound keyword under which some
record along the chain says anything has the value of the outermost count, and without one that of
the outermost bound. It comes from the outermost record that says anything exactly if that one is
not overruled. -/
theorem boundValue_iff (h : CompilesBase context call layers base baseAdapter core)
    (own : ∀ part, ¬ StandsFor context call part) {family : BoundsFamily}
    (isFamily : Structure.family baseAdapter base = family) {keyword : String}
    (isBound : keyword ∈ boundKeywords) {records : List Constraints}
    (along : Chain.records layers base baseAdapter = records)
    (set : ∃ c ∈ records, (c.writtenAt family keyword).isSome) :
    boundValue (call.answer context).schema keyword =
        (records.findSome? (Constraints.countAt family keyword)).or
          (records.findSome? (Constraints.boundAt family keyword)) ∧
      (boundValue (call.answer context).schema keyword =
          records.findSome? (Constraints.writtenAt family keyword) ↔
        ¬ Constraints.Overruled family keyword records) := by
  obtain @⟨levels, node, base, adapter, baseAdapter, layers, isOptional, modifier, ids, s, t, u,
    assembly, new, claims, peels, runs⟩ := h
  subst isFamily along
  obtain ⟨plain, bounds⟩ := (Structure.own_or_embeds runs).resolve_right
    fun ⟨part, next, embeds⟩ => own _ (.intro new claims peels embeds)
  let whole := wrap layers (assembly.addLayer baseAdapter base modifier)
  have constraints : whole.constraints = Constraints.merged (records layers base baseAdapter) :=
    constraints_wrap (Structure.constraints_of_compile runs) layers base baseAdapter modifier
  have body : Table.get? whole.body "$ref" = none := by
    rw [wrap_body, Assembly.addLayer_body]
    exact plain
  have isFamily : whole.bounds = Structure.family baseAdapter base := by
    rw [wrap_bounds, Assembly.addLayer_bounds]
    exact bounds
  obtain ⟨value, written⟩ :=
    Option.isSome_iff_exists.1 ((Constraints.isSome_writtenAt_merged _ isBound).2 set)
  have stands : boundValue whole.schema keyword =
      (Constraints.merged (records layers base baseAdapter)).writtenAt
        (Structure.family baseAdapter base) keyword := by
    rw [written]
    refine Assembly.boundValue_schema body isBound ?_
    rw [constraints, isFamily, written]
  rw [answer_of_core new claims peels (.built runs)]
  refine ⟨?_, ?_⟩
  · rw [stands, Constraints.writtenAt_eq _ isBound, Constraints.countAt_merged,
      Constraints.boundAt_merged]
  · rw [stands]
    exact Constraints.merged_outermost_iff _ isBound

/-! ### A text in an optional layer -/

/-- A lower bound. -/
def lowerBound (i : Int) : Constraints := { Constraints.empty with min := some (.ofInt i) }

/-- A lower count. -/
def lowerCount (n : Nat) : Constraints := { Constraints.empty with minLength := some n }

/-- A fluent text with constraints. -/
def boundedText (c : Constraints) : Schema Empty :=
  ⟨⟨1⟩, "polyschema_mock::fluent::Fluent", .fluent {
    kind := .string, details := { constraints := c } }⟩

/-- A fluent text in an optional layer, each with constraints. -/
def boundedOption (outer inner : Constraints) : Schema Empty :=
  ⟨⟨0⟩, "polyschema_mock::fluent::Fluent", .fluent {
    kind := .optional (boundedText inner), details := { constraints := outer } }⟩

/-- The fluent adapter where no slot is defined. -/
def slotless : Adapter (Payload Empty) := Fluent.adapter ⟨fun _ => none, nofun⟩

/-- Fluent nodes under default options, where no slot is defined. -/
def slotlessContext : CompileContext (Payload Empty) := ⟨⟨[slotless], .firstMatch⟩, {}⟩

theorem boundedOption_compilesBase (outer inner : Constraints) : ∃ core,
    CompilesBase slotlessContext (slotCall (boundedOption outer inner))
      [⟨boundedOption outer inner, slotless, .optional⟩] (boundedText inner) slotless core :=
  ⟨_, .intro (t := _) List.not_mem_nil rfl
    ⟨rfl, .layer rfl ⟨0, rfl⟩ rfl (.base rfl), Nat.le_of_ble_eq_true rfl,
      (by decide : [(⟨0⟩ : Identity), ⟨1⟩].Nodup), fun _ _ => List.not_mem_nil, rfl, ⟨_, rfl, rfl⟩,
      ⟨_, [], rfl⟩⟩ rfl⟩

/-- A bound wins over another one further in. -/
theorem boundedOption_outermost :
    boundValue ((slotCall (boundedOption (lowerBound 5) (lowerBound 1))).answer
      slotlessContext).schema "minLength" = some (.ofInt 5) := by
  obtain ⟨core, compiles⟩ := boundedOption_compilesBase (lowerBound 5) (lowerBound 1)
  have own : ∀ part, ¬ StandsFor slotlessContext
      (slotCall (boundedOption (lowerBound 5) (lowerBound 1))) part := by
    intro part stands
    obtain ⟨supply, next, ⟨seen, _⟩ | ⟨seen, _⟩⟩ := compiles.embeds stands <;> cases seen
  have isFamily : Structure.family slotless (boundedText (lowerBound 1)) = .length := rfl
  have isBound : "minLength" ∈ boundKeywords := by decide
  obtain ⟨value, -⟩ :=
    boundValue_iff compiles own isFamily isBound rfl ⟨lowerBound 5, List.mem_cons_self, rfl⟩
  refine value.trans ?_
  change some (Assembly.boundNumber (.ofInt 5)) = _
  rw [Assembly.boundNumber, Binary64.toInt?_ofInt (by decide)]

/-- A bound loses against a count further in. -/
theorem boundedOption_overruled : ∃ layers core,
    CompilesBase slotlessContext (slotCall (boundedOption (lowerBound 3) (lowerCount 5))) layers
        (boundedText (lowerCount 5)) slotless core ∧
      slotless.shape? (boundedText (lowerCount 5)) = some .string ∧
      (Chain.records layers (boundedText (lowerCount 5)) slotless).findSome?
        (Constraints.writtenAt .length "minLength") = some (.ofInt 3) ∧
      boundValue ((slotCall (boundedOption (lowerBound 3) (lowerCount 5))).answer
        slotlessContext).schema "minLength" = some (.ofInt 5) := by
  obtain ⟨core, compiles⟩ := boundedOption_compilesBase (lowerBound 3) (lowerCount 5)
  refine ⟨_, core, compiles, rfl, ?_, rfl⟩
  change some (Assembly.boundNumber (.ofInt 3)) = _
  rw [Assembly.boundNumber, Binary64.toInt?_ofInt (by decide)]

end Call

end SchemaBridge
