import SchemaBridge.Proofs.Compile.Bounds
import SchemaBridge.Proofs.Draft07.Reading

/-!
# Annotations, patterns and formats along a chain

Every layer of a chain, and its base, may say something about the node, and set constraints. What is
said stands at the top of the compiled schema, beside a null branch; patterns and formats are
constraints and stand with the structure, in front of the null branch. In both places the outermost
layer has its say, field by field: layers are laid over each other from the inside out, and each
field that a layer sets replaces the one that was there.

## Main definitions

* `Chain.sources` : the layers of a chain and its base, the outermost first.
* `Chain.Reports` : a schema says at its top what the outermost source says.
* `Compile.BranchesOff` : a schema is made of a part, with or without a null branch.
* `Compile.NonNull` : the part of a schema in front of a null branch.

## Main results

* `Compile.NonNull.unique` : the part in front of a null branch is determined.
* `Call.CompilesBase.exists_assembly` : the assembly of a chain over a structure of its own.
* `Call.CompilesBase.reports` : the annotations, the pattern and the format of a compiled schema.
-/

namespace SchemaBridge

variable {π : Type}

/-! ### Annotations laid over each other -/

namespace Annotations

/-- What an adapter says about a node. -/
def reported (adapter : Adapter π) (node : Node π) : Annotations where
  title := adapter.title node
  description := adapter.description node
  default := adapter.default node
  examples := adapter.examples node
  deprecated := adapter.isDeprecated node

/-- Every field that the outer annotations set replaces that of the inner ones. -/
def coveredBy (inner outer : Annotations) : Annotations where
  title := outer.title.or inner.title
  description := outer.description.or inner.description
  default := outer.default.or inner.default
  examples := if outer.examples.isEmpty then inner.examples else outer.examples
  deprecated := outer.deprecated || inner.deprecated

/-- Annotations laid over each other, the outermost first. -/
def laid (all : List Annotations) : Annotations :=
  all.foldr (fun outer inner => inner.coveredBy outer) {}

/-- The examples, if there are any. -/
def examples? (a : Annotations) : Option (List Json) :=
  Option.guard (fun examples => !examples.isEmpty) a.examples

theorem map_examples? (a : Annotations) : a.examples?.map Json.array =
    if a.examples.isEmpty then none else some (.array a.examples) := by
  by_cases empty : a.examples.isEmpty = true <;> simp [examples?, Option.guard, empty]

theorem examples?_coveredBy (inner outer : Annotations) :
    (inner.coveredBy outer).examples? = outer.examples?.or inner.examples? := by
  by_cases empty : outer.examples.isEmpty = true <;>
    simp [examples?, coveredBy, Option.guard, empty]

section

variable (all : List Annotations)

theorem title_laid : (laid all).title = all.findSome? title :=
  findSome?_foldr rfl (fun _ _ => rfl) all

theorem description_laid : (laid all).description = all.findSome? description :=
  findSome?_foldr rfl (fun _ _ => rfl) all

theorem default_laid : (laid all).default = all.findSome? default :=
  findSome?_foldr rfl (fun _ _ => rfl) all

theorem examples?_laid : (laid all).examples? = all.findSome? examples? :=
  findSome?_foldr rfl examples?_coveredBy all

theorem deprecated_laid : (laid all).deprecated = all.any deprecated := by
  induction all with
  | nil => rfl
  | cons outer rest ih =>
    rw [List.any_cons, ← ih]
    rfl

end

end Annotations

namespace Chain

/-- The layers of a chain and its base, the outermost first, each with its adapter. -/
def sources (layers : List (PeeledLayer π)) (base : Node π) (baseAdapter : Adapter π) :
    List (Adapter π × Node π) :=
  layers.map (fun layer => (layer.adapter, layer.node)) ++ [(baseAdapter, base)]

/-- Some layer of a chain is nullable, or its base is, with nothing inside. -/
def AdmitsNull (layers : List (PeeledLayer π)) (base : Node π) (baseAdapter : Adapter π) : Prop :=
  (∃ layer ∈ layers, layer.modifier = .nullable) ∨ baseAdapter.modifier? base = some .nullable

/-- A schema says at its top what the outermost source says that says anything. It gives the
examples of the outermost source that gives any, and calls the node deprecated if some source
does. -/
structure Reports (sources : List (Adapter π × Node π)) (schema : Json.Fields) : Prop where
  title : Table.get? schema "title" = (sources.findSome? fun s => s.1.title s.2).map .string
  description :
    Table.get? schema "description" = (sources.findSome? fun s => s.1.description s.2).map .string
  default : Table.get? schema "default" = sources.findSome? fun s => s.1.default s.2
  examples : Table.get? schema "examples" =
    ((sources.map fun s => s.1.examples s.2).find? fun examples => !examples.isEmpty).map .array
  deprecated : Table.get? schema "deprecated" =
    if sources.any fun s => s.1.isDeprecated s.2 then some (.bool true) else none

end Chain

namespace Compile

/-- A schema is made of a part, but for its annotations: it is that part if `null` is not admitted.
Else the part is the first of two alternatives, or it is the alternatives that `null` has joined or
was among. -/
inductive BranchesOff (part : Json.Fields) (admitsNull : Prop) (schema : Json.Fields) : Prop where
  | whole (solid : ¬ admitsNull) (same : ∀ keyword, keyword ∉ Annotations.keywords →
      Table.get? schema keyword = Table.get? part keyword)
  | first (nullable : admitsNull) (same : ∀ keyword, keyword ∉ Annotations.keywords →
      Table.get? schema keyword =
        Table.get? [("anyOf", .array [.object part, Assembly.nullSchema])] keyword)
  | among {branches extended : List Json} (nullable : admitsNull)
      (alternatives : part = [("anyOf", .array branches)])
      (joined : extended = branches ++ [Assembly.nullSchema] ∨
        extended = branches ∧ Assembly.nullSchema ∈ branches)
      (same : ∀ keyword, keyword ∉ Annotations.keywords →
        Table.get? schema keyword = Table.get? [("anyOf", .array extended)] keyword)

/-- The part of a schema without its annotations and in front of its null branch. It is told from
the structure that the schema is built on: beside constraints it has the keywords of the structure,
so alternatives are only taken to be the part if the structure is one of alternatives. -/
structure NonNull (structured part : Json.Fields) (admitsNull : Prop) (schema : Json.Fields) :
    Prop where
  keeps : ∀ keyword, keyword ∉ Constraints.keywords →
    Table.get? part keyword = Table.get? structured keyword
  branches : BranchesOff part admitsNull schema

section NonNull

variable {structured part other schema : Json.Fields} {admitsNull : Prop}

/-- A part is not one of the alternatives that it has itself. -/
theorem not_mem_alternatives {branches : List Json}
    (alternatives : Table.get? part "anyOf" = some (.array branches)) :
    Json.object part ∉ branches := by
  intro mem
  have inner := List.sizeOf_lt_of_mem mem
  have outer := List.sizeOf_lt_of_mem (Table.mem_of_get? alternatives)
  simp only [Json.object.sizeOf_spec, Prod.mk.sizeOf_spec, Json.array.sizeOf_spec] at inner outer
  omega

/-- Where a part is the first of two alternatives, it has not got these alternatives itself. -/
theorem ne_first_of_joined {branches extended : List Json}
    (alternatives : Table.get? part "anyOf" = some (.array branches))
    (joined : extended = branches ++ [Assembly.nullSchema] ∨
      extended = branches ∧ Assembly.nullSchema ∈ branches) :
    extended ≠ [.object part, Assembly.nullSchema] := by
  rintro rfl
  refine not_mem_alternatives alternatives ?_
  rcases joined with joined | ⟨rfl, -⟩
  · obtain rfl : [Json.object part] = branches := List.append_cancel_right joined
    exact List.mem_singleton_self _
  · exact List.mem_cons_self

/-- The part in front of a null branch is determined, keyword by keyword. -/
theorem NonNull.unique (h : NonNull structured part admitsNull schema)
    (h' : NonNull structured other admitsNull schema) (keyword : String) :
    Table.get? part keyword = Table.get? other keyword := by
  have anyOf : "anyOf" ∉ Annotations.keywords := by decide
  have kept {key : String} (unwritten : key ∉ Constraints.keywords) :
      Table.get? part key = Table.get? other key :=
    (h.keeps key unwritten).trans (h'.keeps key unwritten).symm
  have alike : Table.get? part "anyOf" = Table.get? other "anyOf" := kept (by decide)
  cases h.branches with
  | whole solid same =>
    cases h'.branches with
    | whole _ same' =>
      by_cases isAnnotation : keyword ∈ Annotations.keywords
      · have unwritten : ∀ key ∈ Annotations.keywords, key ∉ Constraints.keywords := by decide
        exact kept (unwritten keyword isAnnotation)
      · rw [← same keyword isAnnotation, same' keyword isAnnotation]
    | first nullable | among nullable => exact absurd nullable solid
  | first nullable same =>
    cases h'.branches with
    | whole solid => exact absurd nullable solid
    | first _ same' =>
      obtain ⟨⟩ := (same _ anyOf).symm.trans (same' _ anyOf)
      rfl
    | among _ alternatives joined same' =>
      obtain ⟨⟩ := (same _ anyOf).symm.trans (same' _ anyOf)
      rw [alternatives] at alike
      exact absurd rfl (ne_first_of_joined alike joined)
  | among nullable alternatives joined same =>
    cases h'.branches with
    | whole solid => exact absurd nullable solid
    | first _ same' =>
      obtain ⟨⟩ := (same _ anyOf).symm.trans (same' _ anyOf)
      rw [alternatives] at alike
      exact absurd rfl (ne_first_of_joined alike.symm joined)
    | among _ alternatives' =>
      rw [alternatives, alternatives'] at alike ⊢
      obtain ⟨⟩ := alike
      rfl

end NonNull

end Compile

open Chain Ledger Compile

namespace Assembly

/-- The annotations of a layer are laid over those inside. -/
theorem addLayer_annotations (f : Assembly) (adapter : Adapter π) (node : Node π)
    (modifier : Option Modifier) : (f.addLayer adapter node modifier).annotations =
      f.annotations.coveredBy (.reported adapter node) := by
  unfold addLayer
  dsimp only
  split <;> rfl

variable {f : Assembly}

/-- The structure with its constraints is the part in front of the null branch. -/
theorem branchesOff_schema : BranchesOff f.constrained (f.nullable = true) f.schema := by
  have same {schema : Json.Fields} (keyword : String) (other : keyword ∉ Annotations.keywords) :
      Table.get? (f.annotations.write schema) keyword = Table.get? schema keyword :=
    f.annotations.get?_write schema other
  rw [schema]
  cases nullable : f.nullable with
  | false =>
    rw [if_neg Bool.false_ne_true]
    exact .whole Bool.false_ne_true same
  | true =>
    rw [if_pos rfl]
    generalize f.constrained = part
    unfold orNull
    split
    next branches =>
      refine .among rfl rfl ?_ same
      split
      next present => exact .inr ⟨rfl, Draft07.nullSchema_mem_of_among present⟩
      next => exact .inl rfl
    next => exact .first rfl same

end Assembly

namespace Chain

/-- The annotations of a whole chain are those that its sources report, laid over each other. -/
theorem annotations_wrap {core : Assembly} (free : core.annotations = {})
    (layers : List (PeeledLayer π)) (base : Node π) (baseAdapter : Adapter π)
    (modifier : Option Modifier) :
    (wrap layers (core.addLayer baseAdapter base modifier)).annotations =
      .laid ((sources layers base baseAdapter).map fun s => .reported s.1 s.2) := by
  induction layers with
  | nil =>
    rw [wrap, List.foldr_nil, Assembly.addLayer_annotations, free]
    rfl
  | cons layer rest ih =>
    refine (Assembly.addLayer_annotations (wrap rest _) _ _ _).trans ?_
    rw [ih]
    rfl

/-- Annotations that are those of sources are reported by a schema into which they are written, if
there are no others. -/
theorem reports_write {sources : List (Adapter π × Node π)} {a : Annotations}
    (isLaid : a = .laid (sources.map fun s => .reported s.1 s.2)) {schema : Json.Fields}
    (bare : ∀ keyword ∈ Annotations.keywords, Table.get? schema keyword = none) :
    Reports sources (a.write schema) := by
  have written {keyword : String} {value : Option Json} (mem : (keyword, value) ∈ a.entries) :
      Table.get? (a.write schema) keyword = value := by
    have known : keyword ∈ Annotations.keywords := a.keys_entries ▸ List.mem_map_of_mem mem
    rw [Annotations.get?_write_of_mem mem, bare keyword known, Option.or_none]
  refine ⟨?_, ?_, ?_, ?_, ?_⟩
  · rw [written (.head _), isLaid, Annotations.title_laid, List.findSome?_map]
    rfl
  · rw [written (.tail _ (.head _)), isLaid, Annotations.description_laid, List.findSome?_map]
    rfl
  · rw [written (.tail _ (.tail _ (.head _))), isLaid, Annotations.default_laid,
      List.findSome?_map]
    rfl
  · rw [written (.tail _ (.tail _ (.tail _ (.head _)))), ← Annotations.map_examples?, isLaid,
      Annotations.examples?_laid, ← List.findSome?_guard, List.findSome?_map, List.findSome?_map]
    rfl
  · rw [written (.tail _ (.tail _ (.tail _ (.tail _ (.head _))))), isLaid,
      Annotations.deprecated_laid, List.any_map]
    rfl

end Chain

namespace Call

variable {context : CompileContext π} {call : Call π} {layers : List (PeeledLayer π)}
  {base : Node π} {baseAdapter : Adapter π} {core : Assembly}

/-- If the base of a chain does not stand for what is inside it, what a call answers is the schema
of an assembly: it has a structure of its own, the constraints and annotations of the whole chain,
and admits `null` if the chain does. -/
theorem CompilesBase.exists_assembly (h : CompilesBase context call layers base baseAdapter core)
    (own : ∀ part, ¬ StandsFor context call part) :
    ∃ f : Assembly, (call.answer context).schema = f.schema ∧
      Structure.Own context.options baseAdapter base f ∧
      f.constraints = Constraints.merged (records layers base baseAdapter) ∧
      f.annotations = .laid ((sources layers base baseAdapter).map fun s => .reported s.1 s.2) ∧
      (f.nullable = true ↔ AdmitsNull layers base baseAdapter) ∧ f.body = core.body := by
  obtain @⟨levels, node, base, adapter, baseAdapter, layers, isOptional, modifier, ids, s, t, u,
    assembly, new, claims, peels, runs⟩ := h
  have isOwn := (Structure.isOwn_or_embeds runs).resolve_right
    fun ⟨part, next, embeds⟩ => own _ (.intro new claims peels embeds)
  have atBase : modifier = baseAdapter.modifier? base := by
    obtain ⟨_, unwraps, -⟩ := peels.unwraps.atBase claims
    cases unwraps with
    | base plain => exact plain.symm
    | hollow wrapped => exact wrapped.symm
  obtain ⟨body, bounds, rfl⟩ := Structure.bare_of_compile runs
  refine ⟨wrap layers (Assembly.addLayer { body, bounds } baseAdapter base modifier), ?_, ?_,
    constraints_wrap rfl layers base baseAdapter modifier,
    annotations_wrap rfl layers base baseAdapter modifier, ?_, wrap_body ..⟩
  · rw [answer_of_core new claims peels (.built runs)]
  · refine ⟨?_, ?_, ?_⟩
    · rw [wrap_body, Assembly.addLayer_body]
      exact isOwn.keys
    · rw [wrap_bounds, Assembly.addLayer_bounds]
      exact isOwn.bounds
    · rw [wrap_body, Assembly.addLayer_body]
      exact isOwn.format
  · rw [wrap_nullable_iff, Assembly.addLayer_nullable_iff, AdmitsNull, atBase]
    simp

/-- If the base of a chain does not stand for what is inside it, a compiled schema says at its top
what the outermost source of the chain says. It has a part in front of the null branch, and that has
the pattern and the format of the outermost record that sets one; without such a record it has no
pattern, and the format that the shape of the base has itself, if any. -/
theorem CompilesBase.reports (h : CompilesBase context call layers base baseAdapter core)
    (own : ∀ part, ¬ StandsFor context call part) :
    Reports (sources layers base baseAdapter) (call.answer context).schema ∧
      (∃ part, NonNull core.body part (AdmitsNull layers base baseAdapter)
        (call.answer context).schema) ∧
      ∀ part, NonNull core.body part (AdmitsNull layers base baseAdapter)
          (call.answer context).schema →
        Table.get? part "pattern" =
          ((records layers base baseAdapter).findSome? (·.pattern)).map .string ∧
        Table.get? part "format" =
          (((records layers base baseAdapter).findSome? (·.format)).or
            (Structure.ownFormat? context.options baseAdapter base)).map .string := by
  obtain ⟨f, answer, isOwn, constraints, annotations, nullable, body⟩ := h.exists_assembly own
  have constrained : f.constrained = Assembly.writeConstraints f.constraints f.bounds f.body :=
    Assembly.constrained_of_plain (isOwn.get?_eq_none (by decide))
  have pattern : (Constraints.merged (records layers base baseAdapter)).pattern =
      (records layers base baseAdapter).findSome? (·.pattern) :=
    findSome?_foldr rfl (fun _ _ => rfl) _
  have format : (Constraints.merged (records layers base baseAdapter)).format =
      (records layers base baseAdapter).findSome? (·.format) :=
    findSome?_foldr rfl (fun _ _ => rfl) _
  have nonNull : NonNull core.body f.constrained (AdmitsNull layers base baseAdapter) f.schema := by
    rw [← nullable, ← body]
    refine ⟨fun keyword other => ?_, Assembly.branchesOff_schema⟩
    rw [constrained, Assembly.get?_writeConstraints_of_notMem _ _ _ other]
  rw [answer]
  refine ⟨?_, ⟨f.constrained, nonNull⟩, fun part isPart => ⟨?_, ?_⟩⟩
  · refine reports_write annotations fun keyword isAnnotation => ?_
    have unwritten : ∀ keyword ∈ Annotations.keywords, keyword ≠ "anyOf" ∧
        keyword ∉ Constraints.keywords ∧
        ∀ keywords ∈ ["type", "format"] :: Structure.keywordLists, keyword ∉ keywords := by decide
    obtain ⟨notUnion, notConstraint, notStructure⟩ := unwritten keyword isAnnotation
    have bare : Table.get? f.constrained keyword = none := by
      rw [constrained, Assembly.get?_writeConstraints_of_notMem _ _ _ notConstraint,
        isOwn.get?_eq_none notStructure]
    split
    · exact Assembly.get?_orNull_of_ne _ notUnion
    · exact bare
  · rw [isPart.unique nonNull, constrained, Assembly.get?_pattern_writeConstraints, constraints,
      pattern, isOwn.get?_eq_none (by decide), Option.or_none]
  · rw [isPart.unique nonNull, constrained, Assembly.get?_format_writeConstraints, constraints,
      format, isOwn.format, Option.map_or]

/-! ### A text in a nullable layer -/

/-- A fluent text with a title, a description and a pattern. -/
def describedText : Schema Empty :=
  ⟨⟨1⟩, "polyschema_mock::fluent::Fluent", .fluent {
    kind := .string
    details := {
      title := some "Inner"
      description := some "a text"
      constraints := { Constraints.empty with pattern := some "^a" } } }⟩

/-- The text in a nullable layer with another title. -/
def describedNullable : Schema Empty :=
  ⟨⟨0⟩, "polyschema_mock::fluent::Fluent", .fluent {
    kind := .nullable describedText, details := { title := some "Outer", deprecated := true } }⟩

/-- The title of the layer wins over that of the text, which keeps its description; the pattern
stands in front of the null branch. -/
theorem describedNullable_reports : ∃ core,
    CompilesBase slotlessContext (slotCall describedNullable)
        [⟨describedNullable, slotless, .nullable⟩] describedText slotless core ∧
      Table.get? ((slotCall describedNullable).answer slotlessContext).schema "title" =
        some (.string "Outer") ∧
      Table.get? ((slotCall describedNullable).answer slotlessContext).schema "description" =
        some (.string "a text") ∧
      ∃ part, NonNull core.body part True
          ((slotCall describedNullable).answer slotlessContext).schema ∧
        Table.get? part "pattern" = some (.string "^a") := by
  have compiles : CompilesBase slotlessContext (slotCall describedNullable)
      [⟨describedNullable, slotless, .nullable⟩] describedText slotless _ :=
    .intro (t := _) List.not_mem_nil rfl
      ⟨rfl, .layer rfl ⟨0, rfl⟩ rfl (.base rfl), Nat.le_of_ble_eq_true rfl,
        (by decide : [(⟨0⟩ : Identity), ⟨1⟩].Nodup), fun _ _ => List.not_mem_nil, rfl,
        ⟨_, rfl, rfl⟩, ⟨_, [], rfl⟩⟩ rfl
  have own : ∀ part, ¬ StandsFor slotlessContext (slotCall describedNullable) part := by
    intro part stands
    obtain ⟨supply, next, ⟨seen, _⟩ | ⟨seen, _⟩⟩ := compiles.embeds stands <;> cases seen
  obtain ⟨reports, ⟨part, nonNull⟩, all⟩ := compiles.reports own
  have pattern := (all part nonNull).1
  have admits : AdmitsNull [⟨describedNullable, slotless, .nullable⟩] describedText slotless :=
    .inl ⟨_, List.mem_singleton_self _, rfl⟩
  rw [eq_true admits] at nonNull
  exact ⟨_, compiles, reports.title, reports.description, part, nonNull, pattern⟩

end Call

end SchemaBridge
