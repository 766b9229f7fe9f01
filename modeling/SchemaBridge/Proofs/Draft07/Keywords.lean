import SchemaBridge.Draft07.Acceptance
import SchemaBridge.Table

/-!
# Keywords beside each other

Whether a keyword holds for a value depends on its own value alone, but for two keywords that look
at one other: the rest of the properties looks at `properties`, the rest of the items at `items`. So
keywords that look at the value itself may be written into a schema without a change for the others,
and into one that is a reference without any change.

## Main results

* `Draft07.Holds.of_same` : what a keyword depends on beside its own value.
* `Draft07.Accepts.extend` : a schema with more keywords, all of which hold.
* `Draft07.Accepts.put` : a keyword is written into a schema.
-/

namespace SchemaBridge.Draft07

variable {targets : Targets} {schema other : Json.Fields} {data : Json}
  {keyword : String}

/-- A keyword holds in every schema that has the same under `properties` and under `items`. -/
theorem Holds.of_same {value : Json} (h : Holds targets schema keyword value data)
    (properties : Table.get? other "properties" = Table.get? schema "properties")
    (items : Table.get? other "items" = Table.get? schema "items") :
    Holds targets other keyword value data := by
  cases h with
  | assertion isAssertion holds => exact .assertion isAssertion holds
  | anyOf isBranch accepted => exact .anyOf isBranch accepted
  | allOf accepted => exact .allOf accepted
  | properties accepted => exact .properties accepted
  | additionalProperties accepted =>
    refine .additionalProperties fun key value mem other => accepted key value mem ?_
    rwa [propertySchema?, properties] at other
  | propertyNames accepted => exact .propertyNames accepted
  | items accepted => exact .items accepted
  | positions accepted => exact .positions accepted
  | additionalItems accepted =>
    refine .additionalItems fun i positions value given => accepted i positions value ?_
    rwa [positionSchemas?, items] at given
  | notObject isAboutObjects isOther => exact .notObject isAboutObjects isOther
  | notArray isAboutArrays isOther => exact .notArray isAboutArrays isOther

/-- A schema accepts what another one accepts, if it is no other reference, and if each keyword that
it has more looks at the value itself and holds for it. -/
theorem Accepts.extend (h : Accepts targets schema data)
    (same : ∀ key ∈ ["$ref", "properties", "items"], Table.get? other key = Table.get? schema key)
    (more : ∀ key value, (key, value) ∈ other →
      (key, value) ∈ schema ∨ key ∉ applicators ∧ assertion key value data = true) :
    Accepts targets other data := by
  have reference := same "$ref" (by decide)
  cases h with
  | reference isReference isDefined accepted =>
    exact .reference (reference.trans isReference) isDefined accepted
  | keywords isPlain holds =>
    refine .keywords (reference.trans isPlain) fun key value mem => ?_
    rcases more key value mem with old | ⟨isAssertion, new⟩
    · exact (holds key value old).of_same (same _ (by decide)) (same _ (by decide))
    · exact .assertion isAssertion new

/-- A keyword that looks at the value itself is none that others look at. -/
private theorem ne_of_mem_structural (inert : keyword ∉ "$ref" :: applicators) {key : String}
    (mem : key ∈ ["$ref", "properties", "items"]) : key ≠ keyword := by
  rintro rfl
  refine inert ?_
  revert mem
  simp only [applicators, List.mem_cons, List.not_mem_nil, or_false]
  rintro (rfl | rfl | rfl) <;> simp

/-- A keyword that looks at the value itself may be written into a schema if it holds. -/
theorem Accepts.put (h : Accepts targets schema data) (inert : keyword ∉ "$ref" :: applicators)
    {value : Json} (holds : assertion keyword value data = true) :
    Accepts targets (Table.put schema keyword value) data := by
  refine h.extend (fun key mem => Table.get?_put_of_ne _ _ ?_) fun key written mem => ?_
  · exact (ne_of_mem_structural inert mem).symm
  · refine (Table.mem_of_mem_put mem).imp_right fun new => ?_
    obtain ⟨rfl, rfl⟩ := Prod.mk.inj new
    exact ⟨fun mem => inert (List.mem_cons_of_mem _ mem), holds⟩

/-- A keyword that looks at the value itself may be taken out of a schema again, and what it
replaced be put back, if it holds for the value with whatever is written under it. -/
theorem Accepts.of_put {value : Json} (h : Accepts targets (Table.put schema keyword value) data)
    (inert : keyword ∉ "$ref" :: applicators)
    (holds : ∀ written, assertion keyword written data = true) : Accepts targets schema data := by
  refine h.extend (fun key mem => (Table.get?_put_of_ne _ _ ?_).symm) fun key written mem => ?_
  · exact (ne_of_mem_structural inert mem).symm
  · by_cases same : key = keyword
    · subst same
      exact .inr ⟨fun mem => inert (List.mem_cons_of_mem _ mem), holds written⟩
    · exact .inl (Table.mem_put_of_ne mem same)

end SchemaBridge.Draft07
