import SchemaBridge.Fluent.Builder
import SchemaBridge.Proofs.Compile.Arity
import SchemaBridge.Proofs.Compile.Walks
import SchemaBridge.Proofs.Draft07.LegalBounds
import SchemaBridge.Proofs.Draft07.Parts

/-!
# Where the values of bound keywords come from

A compiled document has a bound keyword for two reasons. It is a count, of a record of constraints
or of the positions of a tuple; or it is a bound that some node reports, at whatever layer and
however many other records were laid over its own. A bound is written as the double that it is:
nobody asks on the way whether the keyword, which is only chosen when the family of the structure is
known, takes sizes. So a document is legal at a bound keyword exactly if the bound that is written
there fits.

## Main definitions

* `Constraints.limit?` : the bound of a record that a keyword is about.
* `Stated` : a node that a root leads to reports a record.
* `Constraints.Laid` : records of a kind, laid over each other.
* `Draft07.Traced`, `Draft07.BoundsTraced` : the values of bound keywords are counts or stated
  bounds.

## Main results

* `Structure.Consists.boundsTraced` : the bounds of a structure itself are counts.
* `Registry.boundsTraced_answer` : what a call answers has counts and stated bounds only.
* `Registry.legalBound_iff` : when a bound keyword of a document is legal.
-/

namespace SchemaBridge

open Draft07

variable {π : Type}

/-! ### Records that are laid over each other -/

namespace Constraints

/-- The keywords of lower bounds; the others are about upper ones. -/
def lowerKeywords : List String := ["minimum", "minLength", "minItems", "minProperties"]

/-- The bound of a record that a keyword is about. -/
def limit? (c : Constraints) (keyword : String) : Option Binary64 :=
  if keyword ∈ lowerKeywords then c.min else c.max

/-- Records of a kind, laid over each other. -/
inductive Laid (source : Constraints → Prop) : Constraints → Prop where
  | empty : Laid source empty
  | cover {inner outer : Constraints} (below : Laid source inner) (top : source outer) :
      Laid source (inner.coveredBy outer)

variable {source : Constraints → Prop} {c : Constraints} {family : BoundsFamily} {keyword : String}
  {value : Json} {x : Binary64}

/-- What the bounds of a record say under a keyword is the bound that the keyword is about. -/
theorem exists_limit_of_boundAt (written : c.boundAt family keyword = some value) :
    ∃ x, c.limit? keyword = some x ∧ Assembly.boundNumber x = value := by
  have lower : family.keywords.1 ∈ lowerKeywords := by cases family <;> decide
  have upper : family.keywords.2 ∉ lowerKeywords := by cases family <;> decide
  unfold boundAt at written
  split at written
  next isLower =>
    rw [limit?, isLower, if_pos lower]
    exact Option.map_eq_some_iff.1 written
  next =>
    split at written
    next isUpper =>
      rw [limit?, isUpper, if_neg upper]
      exact Option.map_eq_some_iff.1 written
    next => cases written

/-- What the counts of a record say is a count. -/
theorem exists_count_of_countAt (written : c.countAt family keyword = some value) :
    ∃ n, value = .ofNat n := by
  unfold countAt at written
  split at written
  · obtain ⟨n, -, same⟩ := Option.map_eq_some_iff.1 written
    exact ⟨n, same.symm⟩
  · split at written
    · obtain ⟨n, -, same⟩ := Option.map_eq_some_iff.1 written
      exact ⟨n, same.symm⟩
    · cases written

/-- Every bound of records laid over each other is that of one of them. -/
theorem Laid.exists_limit (h : Laid source c) (set : c.limit? keyword = some x) :
    ∃ r, source r ∧ r.limit? keyword = some x := by
  induction h with
  | empty =>
    unfold limit? at set
    split at set <;> cases set
  | @cover inner outer below top ih =>
    have laid : (inner.coveredBy outer).limit? keyword =
        (outer.limit? keyword).or (inner.limit? keyword) := by
      unfold limit?
      split <;> rfl
    rw [laid, Option.or_eq_some_iff] at set
    rcases set with set | ⟨-, set⟩
    · exact ⟨outer, top, set⟩
    · exact ih set

end Constraints

open Constraints

section Laid

variable {source : Constraints → Prop}

/-- A layer lays its own record over the others, if it has one. -/
theorem Assembly.laid_addLayer {f : Assembly} (h : Laid source f.constraints) {adapter : Adapter π}
    {node : Node π} (states : ∀ c, adapter.constraints node = some c → source c)
    (modifier : Option Modifier) : Laid source (f.addLayer adapter node modifier).constraints := by
  rw [addLayer_constraints]
  cases set : adapter.constraints node with
  | none => exact h
  | some c => exact .cover h (states c set)

/-- The constraints at a layer are the records of the layers inside it, laid over each other. -/
theorem Chain.laid_wrap {layers : List (PeeledLayer π)} {core : Assembly}
    (h : Laid source core.constraints) (states : ∀ layer ∈ layers, ∀ c,
      layer.adapter.constraints layer.node = some c → source c) :
    Laid source (wrap layers core).constraints := by
  induction layers with
  | nil => exact h
  | cons layer rest ih =>
    obtain ⟨here, below⟩ := List.forall_mem_cons.1 states
    exact Assembly.laid_addLayer (ih below) here (some layer.modifier)

end Laid

/-! ### Values of bound keywords -/

namespace Draft07

/-- The value of a bound keyword is a count, or what is written for a bound that a record of a kind
has for it. -/
inductive Traced (source : Constraints → Prop) (keyword : String) : Json → Prop where
  | count (n : Nat) : Traced source keyword (.ofNat n)
  | bound {c : Constraints} {x : Binary64} (states : source c) (set : c.limit? keyword = some x) :
      Traced source keyword (Assembly.boundNumber x)

/-- The bound keywords of a schema have counts and such bounds as their values. -/
def BoundsTraced (source : Constraints → Prop) (schema : Json.Fields) : Prop :=
  ∀ keyword ∈ boundKeywords, ∀ value, Table.get? schema keyword = some value →
    Traced source keyword value

variable {source : Constraints → Prop} {keyword : String} {value : Json} {schema : Json.Fields}

/-- A count is legal, and a bound is if it fits. -/
theorem Traced.legal_iff (h : Traced source keyword value) :
    LegalBound keyword value ↔ ∀ c x, source c → c.limit? keyword = some x →
      value = Assembly.boundNumber x → Fits keyword x := by
  constructor
  · rintro legal c x - - rfl
    exact (legalBound_boundNumber_iff keyword x).1 legal
  · intro fits
    cases h with
    | count n => exact legalBound_ofNat keyword n
    | bound states set => exact (legalBound_boundNumber_iff keyword _).2 (fits _ _ states set rfl)

theorem boundsTraced_nil : BoundsTraced source [] := by
  intro keyword isBound value found
  cases found

/-- Another keyword in front of a schema. -/
theorem boundsTraced_cons {other : String} (apart : other ∉ boundKeywords) (value : Json)
    (h : BoundsTraced source schema) : BoundsTraced source ((other, value) :: schema) := by
  intro keyword isBound bound found
  rw [Table.get?_cons, if_neg (ne_of_mem_of_not_mem isBound apart).symm] at found
  exact h keyword isBound bound found

theorem boundsTraced_singleton {other : String} (apart : other ∉ boundKeywords) (value : Json) :
    BoundsTraced source [(other, value)] := boundsTraced_cons apart value boundsTraced_nil

theorem boundsTraced_append {further : Json.Fields} (h : BoundsTraced source schema)
    (h' : BoundsTraced source further) : BoundsTraced source (schema ++ further) := by
  intro keyword isBound value found
  rw [Table.get?_append, Option.or_eq_some_iff] at found
  rcases found with found | ⟨-, found⟩
  · exact h keyword isBound value found
  · exact h' keyword isBound value found

end Draft07

/-! ### Layers -/

namespace Assembly

variable {source : Constraints → Prop} {schema : Json.Fields}

theorem boundsTraced_writeConstraints {c : Constraints} (laid : Laid source c)
    (family : BoundsFamily)
    (h : BoundsTraced source schema) : BoundsTraced source (writeConstraints c family schema) := by
  intro keyword isBound value found
  rw [c.get?_writeConstraints isBound, Option.or_eq_some_iff, Option.or_eq_some_iff] at found
  rcases found with counts | ⟨-, bounds | ⟨-, before⟩⟩
  · obtain ⟨n, rfl⟩ := exists_count_of_countAt counts
    exact .count n
  · obtain ⟨x, set, rfl⟩ := exists_limit_of_boundAt bounds
    obtain ⟨r, states, set⟩ := laid.exists_limit set
    exact .bound states set
  · exact h keyword isBound value before

theorem boundsTraced_constrained {f : Assembly} (laid : Laid source f.constraints)
    (h : BoundsTraced source f.body) : BoundsTraced source f.constrained := by
  unfold constrained
  dsimp only
  split
  · exact boundsTraced_writeConstraints laid _ (boundsTraced_singleton (by decide) _)
  · exact boundsTraced_writeConstraints laid _ h

/-- Annotations and a null branch have no bounds. -/
theorem boundsTraced_schema {f : Assembly} (laid : Laid source f.constraints)
    (h : BoundsTraced source f.body) : BoundsTraced source f.schema := by
  have unannotated : ∀ word ∈ boundKeywords, word ∉ Annotations.keywords := by decide
  have unbranched : ∀ word ∈ boundKeywords, word ≠ "anyOf" := by decide
  intro keyword isBound value found
  rw [schema, Annotations.get?_write _ _ (unannotated keyword isBound)] at found
  split at found
  · rw [get?_orNull_of_ne _ (unbranched keyword isBound)] at found
    cases found
  · exact boundsTraced_constrained laid h keyword isBound value found

/-- What layers make of a structure has the bounds of their records, and those of the structure. -/
theorem throughout_boundsTraced {f : Assembly} (laid : Laid source f.constraints)
    (h : Throughout (BoundsTraced source) (.object f.body)) :
    Throughout (BoundsTraced source) (.object f.schema) :=
  throughout_schema h (boundsTraced_constrained laid h.here) (boundsTraced_schema laid h.here)
    (boundsTraced_singleton (by decide) _)

end Assembly

/-! ### Structures -/

namespace Structure

variable {source : Constraints → Prop}

/-- The arity of a tuple is a count. -/
theorem boundsTraced_tuple (items : List Json) (rest : Option Json) :
    BoundsTraced source (tuple items rest) := by
  intro keyword isBound value found
  by_cases isLower : keyword = "minItems"
  · rw [isLower, get?_tuple_minItems] at found
    split at found <;> cases found
    exact .count _
  by_cases isUpper : keyword = "maxItems"
  · rw [isUpper, get?_tuple_maxItems] at found
    split at found <;> cases found
    exact .count _
  have others : ∀ word ∈ boundKeywords, word ≠ "minItems" → word ≠ "maxItems" →
      ∀ keywords ∈ keywordLists, word ∉ keywords := by decide
  rw [(Table.get?_eq_none_iff ..).2
    (others keyword isBound isLower isUpper _ (keys_tuple_mem items rest))] at found
  cases found

theorem boundsTraced_object (entries : List (String × NodeSchema)) :
    BoundsTraced source (object entries) := by
  unfold object
  refine boundsTraced_append
    (boundsTraced_cons (by decide) _ (boundsTraced_singleton (by decide) _)) ?_
  split
  · exact boundsTraced_nil
  · exact boundsTraced_singleton (by decide) _

theorem boundsTraced_optionally {keyword : String} (apart : keyword ∉ boundKeywords)
    (value : Option Json) : BoundsTraced source (optionally keyword value) := by
  cases value with
  | none => exact boundsTraced_nil
  | some value => exact boundsTraced_singleton apart value

/-- The bounds of a structure are counts, unless it is what a part compiles to. -/
theorem Consists.boundsTraced {compiles : Node π → NodeSchema → Prop} {options : DocumentOptions}
    {node : Node π} {adapter : Adapter π} {shape : Shape} {assembly : Assembly}
    (h : Consists compiles options node adapter shape assembly)
    (parts : ∀ part c, compiles part c → BoundsTraced source c.schema) :
    BoundsTraced source assembly.body := by
  have one {keyword : String} (apart : keyword ∉ boundKeywords) (value : Json) :
      BoundsTraced source [(keyword, value)] := boundsTraced_singleton apart value
  cases h with
  | promise _ compiled | only _ compiled => exact parts _ _ compiled
  | literal => exact boundsTraced_optionally (by decide) _
  | noValues | nothing | enumeration | typed => exact one (by decide) _
  | date => exact boundsTraced_cons (by decide) _ (one (by decide) _)
  | anything => exact boundsTraced_nil
  | union =>
    dsimp only [Structure.union]
    split <;> exact one (by decide) _
  | intersection =>
    dsimp only [Structure.intersection]
    split
    · exact boundsTraced_nil
    · exact one (by decide) _
  | tuple => exact boundsTraced_tuple _ _
  | object => exact boundsTraced_object _
  | array => exact boundsTraced_append (one (by decide) _) (boundsTraced_optionally (by decide) _)
  | set =>
    exact boundsTraced_append (boundsTraced_cons (by decide) _ (one (by decide) _))
      (boundsTraced_optionally (by decide) _)
  | record | map =>
    refine boundsTraced_append (boundsTraced_append (one (by decide) _) ?_) ?_
    all_goals exact boundsTraced_optionally (by decide) _

end Structure

/-! ### Nodes that report records -/

/-- A node that a root leads to reports the record. -/
def Stated (registry : Registry π) (root : Node π) (c : Constraints) : Prop :=
  ∃ node adapter, Relation.ReflTransGen (Leads registry) root node ∧
    (registry.resolve node).value = some adapter ∧ adapter.constraints node = some c

open Chain Compile Call

section Chain

variable {registry : Registry π} {root node : Node π} {adapter : Adapter π}
  {layers : List (PeeledLayer π)} {isOptional : Bool} {stop : ChainEnd π}
  (claims : (registry.resolve node).value = some adapter)
  (reached : Relation.ReflTransGen (Leads registry) root node)
include claims reached

/-- What a layer of a chain reports is stated. -/
theorem Chain.Unwraps.stated (h : Unwraps registry node adapter layers isOptional (.ok stop))
    {layer : PeeledLayer π} (mem : layer ∈ layers) {c : Constraints}
    (set : layer.adapter.constraints layer.node = some c) : Stated registry root c := by
  obtain ⟨walk, starts⟩ := h.isWalk claims
  have along : layer.node ∈ Chain.nodes layers stop := by
    have isLayer := List.mem_map_of_mem (f := fun layer : PeeledLayer π => layer.node) mem
    cases stop with
    | base | reentered => exact List.mem_append_left _ isLayer
    | unclaimed => exact isLayer
  obtain ⟨outer, inner, rfl⟩ := List.append_of_mem mem
  obtain ⟨-, -, claimed⟩ := h.inside claims
  exact ⟨layer.node, layer.adapter, reached.trans (reached_of_isChain walk starts along),
    claimed, set⟩

/-- What the base of a chain reports is stated. -/
theorem Chain.Unwraps.stated_base {base : Node π} {baseAdapter : Adapter π}
    {modifier : Option Modifier}
    (h : Unwraps registry node adapter layers isOptional (.ok (.base base baseAdapter modifier)))
    {c : Constraints} (set : baseAdapter.constraints base = some c) : Stated registry root c := by
  obtain ⟨walk, starts⟩ := h.isWalk claims
  have along : base ∈ Chain.nodes layers (.base base baseAdapter modifier) :=
    List.mem_append_right _ (List.mem_singleton_self _)
  exact ⟨base, baseAdapter, reached.trans (reached_of_isChain walk starts along),
    (h.bare_base claims).1, set⟩

end Chain

/-! ### Calls -/

/-- A reference has no bounds. -/
theorem throughout_boundsTraced_refSchema (source : Constraints → Prop) (name : String) :
    Throughout (BoundsTraced source) (.object (Ledger.refSchema name)) := by
  refine throughout_of_parts (boundsTraced_singleton (by decide) _) fun part isPart => ?_
  cases isPart

theorem throughout_boundsTraced_nil (source : Constraints → Prop) :
    Throughout (BoundsTraced source) (.object []) :=
  throughout_of_parts boundsTraced_nil nofun

/-- What a node compiles to has the bounds that are stated along its chain, if its parts have stated
bounds. -/
theorem Compile.Builds.boundsTraced {context : CompileContext π} {names : Table Identity String}
    {limited : Prop} {enters : Node π → Prop} {compiles : Node π → NodeSchema → Prop}
    {root node : Node π} {c : NodeSchema}
    (reached : Relation.ReflTransGen (Leads context.registry) root node)
    (parts : ∀ part c, compiles part c →
      Throughout (BoundsTraced (Stated context.registry root)) c.toJson)
    (h : Builds context names limited enters compiles node c) :
    Throughout (BoundsTraced (Stated context.registry root)) c.toJson := by
  cases h with
  | tooDeep | unclaimed | failed => exact throughout_boundsTraced_nil _
  | whole claimed unwraps atEnd =>
    have layered {core : Assembly} (laid : Laid (Stated context.registry root) core.constraints)
        (body : Throughout (BoundsTraced (Stated context.registry root)) (.object core.body)) :=
      Assembly.throughout_boundsTraced
        (Chain.laid_wrap laid fun _ mem _ => unwraps.stated claimed reached mem)
        ((Chain.wrap_body _ core).symm ▸ body)
    cases atEnd with
    | unclaimed => exact layered .empty (throughout_boundsTraced_nil _)
    | reentered => exact layered .empty (throughout_boundsTraced_refSchema _ _)
    | shapeless =>
      refine layered
        (Assembly.laid_addLayer .empty (fun _ => unwraps.stated_base claimed reached) _) ?_
      rw [Assembly.addLayer_body]
      exact throughout_boundsTraced_nil _
    | shaped _ yields =>
      have consists := Structure.consists_of_yields (yields.mono parts)
      refine layered (Assembly.laid_addLayer ?_ (fun _ => unwraps.stated_base claimed reached) _) ?_
      · cases consists <;> exact .empty
      · rw [Assembly.addLayer_body]
        exact consists.throughout (consists.boundsTraced fun _ _ all => Throughout.here all)
          boundsTraced_nil

namespace Registry

variable (registry : Registry π) (options : DocumentOptions) (node : Node π) (supply : Nat)

/-- What a call of a run comes to is reached from the root. -/
theorem reached {call : Call π}
    (within : Within ⟨registry, options⟩ (rootCall options node supply) call)
    {inner : Node π} (enters : Enters ⟨registry, options⟩ call inner) :
    Relation.ReflTransGen (Leads registry) node inner := by
  obtain ⟨path, follows⟩ := Within.follows within rfl (trusted_start _ _ supply)
  exact enters.reached follows

/-- What a call of a run answers has stated bounds only. -/
theorem boundsTraced_answer {call : Call π}
    (within : Within ⟨registry, options⟩ (rootCall options node supply) call) :
    Throughout (BoundsTraced (Stated registry node)) (call.answer ⟨registry, options⟩).toJson := by
  induction call using Call.induct ⟨registry, options⟩ with
  | step call ih =>
    rcases registry.answers_books options node supply within with ⟨name, bounds, -, same⟩ | makes
    · rw [same]
      exact throughout_boundsTraced_refSchema _ name
    · refine Builds.boundsTraced (registry.reached options node supply within (.self call)) ?_ makes
      rintro part _ ⟨inner, spawns, -, rfl⟩
      exact ih inner spawns (within.tail spawns)

/-- The definitions of a document have stated bounds only. -/
theorem boundsTraced_definition {name : String} {schema : Json.Fields}
    (defined : Table.get? (registry.books options node supply).definitions name = some schema) :
    Throughout (BoundsTraced (Stated registry node)) (.object schema) := by
  rcases (registry.trusted_books options node supply).explained name schema defined with
    rfl | ⟨call, inner, c, within, enters, -, makes, rfl⟩
  · exact throughout_boundsTraced_nil _
  · refine Builds.boundsTraced (registry.reached options node supply within enters) ?_ makes
    rintro part _ ⟨inner, spawns, -, rfl⟩
    exact registry.boundsTraced_answer options node supply (within.tail spawns)

end Registry

/-! ### Documents -/

/-- What a document adds to its root has no schemas in it. -/
theorem Compile.throughout_document {P : Json.Fields → Prop} (options : DocumentOptions)
    {root : Json.Fields} (defs : Table String Json.Fields) (tidy : Tidy root)
    (h : Throughout P (.object root))
    (own : ∀ fields, document options root defs = .object fields → P fields) :
    Throughout P (document options root defs) := by
  obtain ⟨fields, isObject, same⟩ := root_document options defs tidy
  rw [isObject]
  refine throughout_of_parts (own fields isObject) fun part isPart => ?_
  obtain ⟨entry, mem, isPart⟩ := mem_parts_iff.1 isPart
  refine h.below part (mem_parts_iff.2 ⟨entry, ?_, isPart⟩)
  have carries : entry.1 ∈ applicators := by
    by_contra inert
    rw [keywordParts_eq_nil inert] at isPart
    cases isPart
  have apart : ∀ keyword ∈ applicators, (keyword ≠ "$schema" && keyword ≠ "$defs") = true := by
    decide
  rw [← same]
  exact List.mem_filter.2 ⟨mem, apart entry.1 carries⟩

namespace Registry

/-- The bound keywords of a schema inside a document have counts and stated bounds as their values.
A value is legal exactly if it fits its keyword, for whatever stated bound it was written. -/
theorem legalBound_iff (registry : Registry π) (options : DocumentOptions) (node : Node π)
    (supply : Nat) {schema value : Json} {keyword : String}
    (inside : InDocument (registry.compile options node supply).1.value schema)
    (isBound : keyword ∈ boundKeywords) (found : schema.get? keyword = some value) :
    Traced (Stated registry node) keyword value ∧
      (LegalBound keyword value ↔ ∀ c x, Stated registry node c → c.limit? keyword = some x →
        value = Assembly.boundNumber x → Fits keyword x) := by
  have of_throughout {outer : Json} (all : Throughout (BoundsTraced (Stated registry node)) outer)
      (inside : Inside outer schema) : Traced (Stated registry node) keyword value := by
    obtain ⟨fields, rfl, traced⟩ := all schema inside
    exact traced keyword isBound value found
  have traced : Traced (Stated registry node) keyword value := by
    rcases inside with inRoot | ⟨name, definition, mem, inDefinition⟩
    · have root := registry.boundsTraced_answer options node supply .refl
      have tidy := registry.schema_root options node supply (tidy_invariant _ _)
      have known : ∀ keyword ∈ boundKeywords, keyword ∈ vocabulary := by decide
      rw [value_compile] at inRoot
      refine of_throughout (throughout_document options _ tidy root
        fun fields isObject keyword isBound value found => ?_) inRoot
      have same := get?_document options (registry.books options node supply).definitions tidy
        (known keyword isBound)
      rw [isObject] at same
      exact root.here keyword isBound value (same.symm.trans found)
    · rw [definitions_compile] at mem
      have defined := Table.get?_of_mem (registry.trusted_books options node supply).distinct mem
      exact of_throughout (registry.boundsTraced_definition options node supply defined)
        inDefinition
  exact ⟨traced, traced.legal_iff⟩

/-! ### A text of at least half a character -/

/-- A fluent text with a lower bound. -/
def textOfAtLeast (x : Binary64) : Schema Empty :=
  ⟨⟨1⟩, "polyschema_mock::fluent::Fluent", .fluent ((Fluent.ofKind .string).atLeast x)⟩

/-- The document of a fluent text with a lower bound. -/
def textDocument (x : Binary64) : Json :=
  (slotlessContext.registry.compile {} (textOfAtLeast x) 2).1.value

/-- The bound of a text is written as it is. -/
theorem get?_textDocument (x : Binary64) :
    (textDocument x).get? "minLength" = some (Assembly.boundNumber x) := rfl

/-- One half. -/
def half : Binary64 := .finite false (twoTo 1073)

theorem not_fits_half : ¬ Fits "minLength" half := by
  rw [Fits, if_neg (by decide)]
  rintro ⟨whole, -⟩
  have less : twoTo 1073 < Binary64.one := by
    unfold Binary64.one
    exact twoTo_lt_twoTo (by decide)
  exact absurd (Nat.le_of_dvd (twoTo_pos _) whole) (Nat.not_le.2 less)

/-- The bound of a text that is half a character long comes from the text itself, and does not
fit. -/
theorem textDocument_legalBound_iff :
    (InDocument (textDocument half) (textDocument half) ∧ "minLength" ∈ boundKeywords ∧
        (textDocument half).get? "minLength" = some (Assembly.boundNumber half)) ∧
      Traced (Stated slotlessContext.registry (textOfAtLeast half)) "minLength"
          (Assembly.boundNumber half) ∧
        (LegalBound "minLength" (Assembly.boundNumber half) ↔ ∀ c x,
          Stated slotlessContext.registry (textOfAtLeast half) c → c.limit? "minLength" = some x →
            Assembly.boundNumber half = Assembly.boundNumber x → Fits "minLength" x) :=
  have inside : InDocument (textDocument half) (textDocument half) := .inl (.refl _)
  have isBound : "minLength" ∈ boundKeywords := by decide
  ⟨⟨inside, isBound, get?_textDocument half⟩,
    legalBound_iff _ {} (textOfAtLeast half) 2 inside isBound (get?_textDocument half)⟩

/-- The document of a text of at least half a character has a bound that is not legal. -/
theorem textDocument_illegal : ∃ value, (textDocument half).get? "minLength" = some value ∧
    ¬ LegalBound "minLength" value :=
  ⟨_, get?_textDocument half, mt (legalBound_boundNumber_iff _ _).1 not_fits_half⟩

end Registry

end SchemaBridge
