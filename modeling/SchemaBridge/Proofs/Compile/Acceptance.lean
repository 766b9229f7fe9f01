import SchemaBridge.Proofs.Compile.Vocabulary
import SchemaBridge.Proofs.Draft07.Reading

/-!
# What assemblies accept

The schema of an assembly accepts what its structure accepts, as long as the constraints that the
layers add are kept, and `null` if a layer admits it. The annotations play no part. A constraint
that replaces another one, be it that of an inner layer or that of a structure, does no harm: what
keeps all layers keeps the outer one.

## Main definitions

* `Draft07.size?`, `Draft07.magnitude?` : what lengths and bounds are compared with.
* `Constraints.KeptBy` : a value keeps constraints as they are written.
* `Assembly.Takes` : an assembly takes a value.

## Main results

* `Assembly.accepts_schema` : the schema of an assembly accepts what the assembly takes.
* `Assembly.Takes.addLayer`, `Assembly.takes_null` : what a layer takes.
* `Assembly.accepts_schema_iff` : without constraints the schema accepts nothing else.
* `Compile.documentAccepts_iff` : a document accepts what its root schema accepts.
-/

namespace SchemaBridge

open Draft07

namespace Draft07

/-- The number of characters, items or properties. -/
def size? : Json → Option Nat
  | .string s => some s.length
  | .array items => some items.length
  | .object fields => some fields.length
  | _ => none

/-- The number that bounds are compared with: the value, or its size. -/
def magnitude? (data : Json) : Option Number :=
  data.asNumber?.or ((size? data).map fun (n : Nat) => .integer n)

theorem size?_of_sizeFor? {keyword : String} {data : Json} {n : Nat}
    (h : sizeFor? keyword data = some n) : size? data = some n := by
  unfold sizeFor? at h
  split at h <;> first | exact h | cases h

/-- A bound is compared with the value itself, or with its size. -/
theorem measure?_cases {keyword : String} {data : Json} {n : Number}
    (h : measure? keyword data = some n) :
    keyword ∈ ["minimum", "maximum"] ∧ data = .number n ∨
      ∃ count : Nat, size? data = some count ∧ n = .integer count := by
  unfold measure? at h
  split at h
  · obtain rfl := Option.some.inj h
    exact .inl ⟨by decide, rfl⟩
  · obtain rfl := Option.some.inj h
    exact .inl ⟨by decide, rfl⟩
  · obtain ⟨i, counted, rfl⟩ := Option.map_eq_some_iff.1 h
    obtain ⟨count, size, same⟩ := Option.bind_eq_some_iff.1 counted
    obtain rfl := Option.some.inj same
    exact .inr ⟨count, size?_of_sizeFor? size, rfl⟩

theorem magnitude?_of_measure? {keyword : String} {data : Json} {n : Number}
    (h : measure? keyword data = some n) : magnitude? data = some n := by
  rcases measure?_cases h with ⟨-, rfl⟩ | ⟨count, size, rfl⟩
  · rfl
  · cases data with
    | string | array | object =>
      rw [magnitude?, size]
      rfl
    | null | bool | number => cases size

/-- A lower bound holds if it is at most what it is compared with. -/
theorem assertion_lower_iff {keyword : String}
    (isLower : keyword ∈ ["minimum", "minLength", "minItems", "minProperties"])
    {value data : Json} :
    assertion keyword value data = true ↔
      ∀ n, measure? keyword data = some n → ∃ bound, value = .number bound ∧ bound.le n = true := by
  have reads : assertion keyword value data = (measure? keyword data).all fun n =>
      value.asNumber?.any fun bound => bound.le n := by
    simp only [List.mem_cons, List.not_mem_nil, or_false] at isLower
    rcases isLower with rfl | rfl | rfl | rfl <;> rfl
  rw [reads]
  cases measure? keyword data with
  | none => exact iff_of_true rfl nofun
  | some n => cases value <;> simp [Json.asNumber?]

/-- An upper bound holds if it is at least what it is compared with. -/
theorem assertion_upper_iff {keyword : String}
    (isUpper : keyword ∈ ["maximum", "maxLength", "maxItems", "maxProperties"])
    {value data : Json} :
    assertion keyword value data = true ↔
      ∀ n, measure? keyword data = some n → ∃ bound, value = .number bound ∧ n.le bound = true := by
  have reads : assertion keyword value data = (measure? keyword data).all fun n =>
      value.asNumber?.any fun bound => n.le bound := by
    simp only [List.mem_cons, List.not_mem_nil, or_false] at isUpper
    rcases isUpper with rfl | rfl | rfl | rfl <;> rfl
  rw [reads]
  cases measure? keyword data with
  | none => exact iff_of_true rfl nofun
  | some n => cases value <;> simp [Json.asNumber?]

end Draft07

/-! ### Constraints -/

/-- A value keeps constraints as they are written: the bounds apply to its magnitude, the lengths to
its size. -/
structure Constraints.KeptBy (c : Constraints) (data : Json) : Prop where
  min : ∀ x ∈ c.min, ∀ n, magnitude? data = some n →
    ∃ bound, Assembly.boundNumber x = .number bound ∧ bound.le n = true
  max : ∀ x ∈ c.max, ∀ n, magnitude? data = some n →
    ∃ bound, Assembly.boundNumber x = .number bound ∧ n.le bound = true
  minLength : ∀ length ∈ c.minLength, ∀ n, size? data = some n →
    (Number.integer length).le (.integer n) = true
  maxLength : ∀ length ∈ c.maxLength, ∀ n, size? data = some n →
    (Number.integer n).le (.integer length) = true

namespace Constraints

variable {c inner outer : Constraints} {data : Json}

theorem keptBy_empty (data : Json) : empty.KeptBy data := by
  constructor <;> rintro _ ⟨⟩

theorem keptBy_null (c : Constraints) : c.KeptBy .null := by
  constructor <;> rintro _ - _ ⟨⟩

/-- Constraints laid over others are kept if both are. -/
theorem KeptBy.coveredBy (hi : inner.KeptBy data) (ho : outer.KeptBy data) :
    (inner.coveredBy outer).KeptBy data where
  min x mem := (Option.or_eq_some_iff.1 mem).elim (ho.min x) fun h => hi.min x h.2
  max x mem := (Option.or_eq_some_iff.1 mem).elim (ho.max x) fun h => hi.max x h.2
  minLength n mem := (Option.or_eq_some_iff.1 mem).elim (ho.minLength n) fun h => hi.minLength n h.2
  maxLength n mem := (Option.or_eq_some_iff.1 mem).elim (ho.maxLength n) fun h => hi.maxLength n h.2

/-- Constraints that are kept hold under the keywords of any family. -/
theorem KeptBy.holds (kept : c.KeptBy data) (family : BoundsFamily) :
    ∀ entry ∈ c.entries family, ∀ written ∈ entry.2, assertion entry.1 written data = true := by
  have lower : ∀ written ∈ c.min.map Assembly.boundNumber,
      assertion family.keywords.1 written data = true := by
    intro written mem
    obtain ⟨x, set, rfl⟩ := Option.map_eq_some_iff.1 mem
    refine (assertion_lower_iff ?_).2 fun n measured =>
      kept.min x set n (magnitude?_of_measure? measured)
    cases family <;> decide
  have upper : ∀ written ∈ c.max.map Assembly.boundNumber,
      assertion family.keywords.2 written data = true := by
    intro written mem
    obtain ⟨x, set, rfl⟩ := Option.map_eq_some_iff.1 mem
    refine (assertion_upper_iff ?_).2 fun n measured =>
      kept.max x set n (magnitude?_of_measure? measured)
    cases family <;> decide
  have counted {keyword : String} (notValue : keyword ∉ ["minimum", "maximum"]) {n : Number}
      (measured : measure? keyword data = some n) :
      ∃ count : Nat, size? data = some count ∧ n = .integer count :=
    (measure?_cases measured).resolve_left fun value => notValue value.1
  have least : ∀ written ∈ c.minLength.map Json.ofNat,
      assertion family.countKeywords.1 written data = true := by
    intro written mem
    obtain ⟨length, set, rfl⟩ := Option.map_eq_some_iff.1 mem
    refine (assertion_lower_iff ?_).2 fun n measured => ?_
    · cases family <;> decide
    · obtain ⟨count, size, rfl⟩ := counted (by cases family <;> decide) measured
      exact ⟨_, rfl, kept.minLength length set count size⟩
  have most : ∀ written ∈ c.maxLength.map Json.ofNat,
      assertion family.countKeywords.2 written data = true := by
    intro written mem
    obtain ⟨length, set, rfl⟩ := Option.map_eq_some_iff.1 mem
    refine (assertion_upper_iff ?_).2 fun n measured => ?_
    · cases family <;> decide
    · obtain ⟨count, size, rfl⟩ := counted (by cases family <;> decide) measured
      exact ⟨_, rfl, kept.maxLength length set count size⟩
  -- Patterns and formats hold for every value.
  simp only [entries, List.forall_mem_cons]
  exact ⟨lower, upper, least, most, fun _ _ => rfl, fun _ _ => rfl, List.forall_mem_nil _⟩

end Constraints

namespace Assembly

variable {targets : Targets} {schema : Json.Fields} {data : Json}

/-- Constraints that are kept may be written into a schema. -/
theorem accepts_writeConstraints {c : Constraints} (kept : c.KeptBy data) (family : BoundsFamily)
    (h : Accepts targets schema data) :
    Accepts targets (writeConstraints c family schema) data := by
  have inert : ∀ keyword ∈ Constraints.keywords, keyword ∉ "$ref" :: applicators := by decide
  rw [writeConstraints_eq]
  refine Table.writeAll_keeps (P := fun schema => Accepts targets schema data)
    (fun entry mem written isWritten _ accepted => accepted.put ?_ ?_) h
  · exact inert _ (c.keys_entries_subset family (List.mem_map_of_mem mem))
  · exact kept.holds family entry mem written isWritten

/-- Annotations do not restrict a schema, and take no restriction away. -/
theorem accepts_write_iff (a : Annotations) :
    Accepts targets (a.write schema) data ↔ Accepts targets schema data := by
  have inert : ∀ keyword ∈ Annotations.keywords, keyword ∉ "$ref" :: applicators := by decide
  have holds {keyword : String} (mem : keyword ∈ Annotations.keywords) (value : Json) :
      assertion keyword value data = true := by
    simp only [Annotations.keywords, List.mem_cons, List.not_mem_nil, or_false] at mem
    rcases mem with rfl | rfl | rfl | rfl | rfl <;> rfl
  refine a.write_keeps
    (P := fun written => Accepts targets written data ↔ Accepts targets schema data)
    (fun keyword mem value t same => ⟨fun h => same.1 ?_, fun h => ?_⟩) .rfl
  · exact h.of_put (inert keyword mem) (holds mem)
  · exact (same.2 h).put (inert keyword mem) (holds mem value)

/-! ### The null branch -/

/-- With a null branch a schema accepts `null`, and else what it accepted. -/
theorem accepts_orNull_iff : Accepts targets (orNull schema) data ↔
    data = .null ∨ Accepts targets schema data := by
  rw [← acceptance_accepts_iff, Reading.accepts_orNull_iff, acceptance_accepts_iff]

theorem accepts_orNull (h : Accepts targets schema data) : Accepts targets (orNull schema) data :=
  accepts_orNull_iff.2 (.inr h)

theorem accepts_orNull_null (schema : Json.Fields) : Accepts targets (orNull schema) .null :=
  accepts_orNull_iff.2 (.inl rfl)

/-! ### Assemblies -/

/-- An assembly takes a value: the structure accepts it, or it is `null` and a layer admits it; and
the constraints are kept. -/
structure Takes (targets : Targets) (f : Assembly) (data : Json) : Prop where
  inside : f.nullable = true ∧ data = .null ∨ Accepts targets f.body data
  kept : f.constraints.KeptBy data

variable {f : Assembly}

theorem accepts_constrained (h : Accepts targets f.body data) (kept : f.constraints.KeptBy data) :
    Accepts targets f.constrained data := by
  unfold constrained
  dsimp only
  split
  · refine accepts_writeConstraints kept f.bounds (.keywords rfl fun key value mem => ?_)
    obtain ⟨rfl, rfl⟩ := Prod.mk.inj (List.mem_singleton.1 mem)
    have only : ∀ branch ∈ [f.body], Accepts targets branch data := by
      rintro branch mem
      rwa [List.mem_singleton.1 mem]
    exact .allOf only
  · exact accepts_writeConstraints kept f.bounds h

/-- The schema of an assembly accepts what the assembly takes. -/
theorem accepts_schema (h : f.Takes targets data) : Accepts targets f.schema data := by
  refine (accepts_write_iff f.annotations).2 ?_
  rcases h.inside with ⟨nullable, rfl⟩ | accepted
  · rw [if_pos nullable]
    exact accepts_orNull_null f.constrained
  · have constrained := accepts_constrained accepted h.kept
    split
    · exact accepts_orNull constrained
    · exact constrained

theorem takes_of_accepts {body : Json.Fields} (h : Accepts targets body data)
    (bounds : BoundsFamily) : Takes targets { body, bounds } data :=
  ⟨.inr h, Constraints.keptBy_empty data⟩

variable {π : Type}

/-- A structure is an assembly to which nothing has been added. -/
theorem bare_of_yields {compiles : Node π → NodeSchema → Prop} {options : DocumentOptions}
    {node : Node π} {adapter : Adapter π} {shape : Shape}
    (h : Plan.Yields compiles (Structure.ofShape options node adapter shape) f) :
    ∃ body bounds, f = { body, bounds } := by
  cases Structure.consists_of_yields h <;> exact ⟨_, _, rfl⟩

/-- A layer takes what is taken inside, if its own constraints are kept. -/
theorem Takes.addLayer (h : f.Takes targets data) {adapter : Adapter π} {node : Node π}
    (kept : ∀ c ∈ adapter.constraints node, c.KeptBy data) (modifier : Option Modifier) :
    (f.addLayer adapter node modifier).Takes targets data := by
  have covered : (f.add adapter node).constraints.KeptBy data := by
    unfold add
    dsimp only
    cases set : adapter.constraints node with
    | none => exact h.kept
    | some c => exact h.kept.coveredBy (kept c set)
  unfold Assembly.addLayer
  dsimp only
  split
  · exact ⟨h.inside.imp_left fun null => ⟨rfl, null.2⟩, covered⟩
  · exact ⟨h.inside, covered⟩

/-- A layer that admits `null` takes it, whatever is inside. -/
theorem takes_null (f : Assembly) (adapter : Adapter π) (node : Node π) :
    (f.addLayer adapter node (some .nullable)).Takes targets .null :=
  ⟨.inl ⟨rfl, rfl⟩, Constraints.keptBy_null _⟩

/-! ### Assemblies without constraints -/

/-- The schema of an assembly without constraints accepts what the structure accepts, and `null` if
a layer admits it. -/
theorem accepts_schema_iff (unconstrained : f.constraints = .empty) :
    Accepts targets f.schema data ↔ f.nullable = true ∧ data = .null ∨
      Accepts targets f.body data := by
  have bare : writeConstraints f.constraints f.bounds = id := by
    rw [unconstrained]
    rfl
  have constrained : Accepts targets f.constrained data ↔ Accepts targets f.body data := by
    unfold Assembly.constrained
    dsimp only
    rw [bare]
    split
    · exact (accepts_intersection [⟨f.body, false, f.bounds⟩]).trans List.forall_mem_singleton
    · rfl
  rw [schema, accepts_write_iff]
  cases nullable : f.nullable with
  | true => 
    rw [if_pos rfl, accepts_orNull_iff, constrained]
    simp
  | false => 
    rw [if_neg Bool.false_ne_true, constrained]
    simp

section Unconstrained

variable {π : Type} {adapter : Adapter π} {node : Node π} (unconstrained : f.constraints = .empty)
  (free : adapter.constraints node = none) (modifier : Option Modifier)
include unconstrained free

/-- A layer that sets no constraint leaves an assembly without constraints. -/
theorem constraints_addLayer : (f.addLayer adapter node modifier).constraints = .empty := by
  have added : (f.add adapter node).constraints = .empty := by
    rw [add, free]
    exact unconstrained
  rw [addLayer]
  split <;> exact added

/-- A layer that sets no constraint adds nothing but `null`, if it admits that. -/
theorem accepts_addLayer_iff : Accepts targets (f.addLayer adapter node modifier).schema data ↔
    modifier = some .nullable ∧ data = .null ∨ Accepts targets f.schema data := by
  rw [accepts_schema_iff (constraints_addLayer unconstrained free modifier),
    accepts_schema_iff unconstrained, addLayer_body, addLayer]
  split
  · rename_i nullable
    simp only [nullable, true_and]
    tauto
  · rename_i plain
    simp [plain, add]

end Unconstrained

end Assembly

namespace Compile

/-- A document accepts what its root schema accepts under its definitions. -/
theorem documentAccepts_iff (options : DocumentOptions) {root : Json.Fields} (tidy : Tidy root)
    (defs : Table String Json.Fields) {data : Json} :
    DocumentAccepts (document options root defs) data ↔ Accepts (named defs) root data := by
  obtain ⟨fields, written, kept⟩ := root_document options defs tidy
  have same : ∀ key ∈ ["$ref", "properties", "items"],
      Table.get? fields key = Table.get? root key := by
    intro key mem
    have known : ["$ref", "properties", "items"] ⊆ vocabulary := by decide
    rw [← get?_document options defs tidy (known mem), written]
    rfl
  have defined : definitions (.object fields) = defs :=
    written ▸ definitions_document options defs tidy
  rw [written]
  constructor
  · rintro ⟨_, ⟨⟩, accepted⟩
    rw [defined] at accepted
    refine accepted.extend (fun key mem => (same key mem).symm) fun key value mem => .inl ?_
    rw [← kept] at mem
    exact (List.mem_filter.1 mem).1
  · intro accepted
    refine ⟨fields, rfl, ?_⟩
    rw [defined]
    refine accepted.extend same fun key value mem => ?_
    by_cases own : key = "$schema" ∨ key = "$defs"
    · refine .inr ?_
      rcases own with rfl | rfl <;> exact ⟨by decide, rfl⟩
    · refine .inl ?_
      rw [← kept]
      refine List.mem_filter.2 ⟨mem, ?_⟩
      simpa using own

end Compile

end SchemaBridge
