import SchemaBridge.Proofs.Draft07.Closure

/-!
# Acceptance under other targets

What a schema accepts depends on what its references stand for, and on nothing else that is outside
of it. If the texts of references stand for the same schemas in two ways, then so much as the
references that are come to while a value is checked, the schema accepts the same both ways. A
schema comes to no other references than those inside it, and inside the schemas that they stand
for.

## Main results

* `Draft07.Accepts.retarget` : acceptance is kept if the known references keep what they stand for.
-/

namespace SchemaBridge.Draft07

variable {targets others : Targets} {known : String → Prop}

/-- The schemas directly inside a closed schema are closed. -/
theorem Closed.of_mem_parts {schema part : Json} (h : Closed known schema)
    (isPart : part ∈ parts schema) : Closed known part :=
  fun inner value inside => h inner value (.step isPart inside)

/-- A schema accepts what it accepts under other targets as well, if it only has known references,
and these stand for the same there, which is again a schema with known references only. -/
theorem Accepts.retarget {schema : Json.Fields} {data : Json}
    (kept : ∀ name target, known name → targets (pointer name) = some target →
      others (pointer name) = some target ∧ Closed known (.object target))
    (h : Accepts targets schema data) (closed : Closed known (.object schema)) :
    Accepts others schema data := by
  -- Along with schemas the induction goes over keywords, whose schemas are closed as well.
  induction h using @Accepts.rec targets _ (fun schema keyword value data _ =>
      (∀ part ∈ keywordParts keyword value, Closed known part) →
        Holds others schema keyword value data) with
  | reference isReference isTarget accepted ih =>
    obtain ⟨name, isPointer, isKnown⟩ := closed _ _ (.refl _) isReference
    obtain rfl := Json.string.inj isPointer
    obtain ⟨isTarget, closed⟩ := kept name _ isKnown isTarget
    exact .reference isReference isTarget (ih closed)
  | keywords isPlain holds ih =>
    refine .keywords isPlain fun keyword value mem => ih keyword value mem fun part isPart => ?_
    exact closed.of_mem_parts (List.mem_flatMap.2 ⟨_, mem, isPart⟩)
  | assertion isAssertion holds => exact .assertion isAssertion holds
  | anyOf isBranch accepted ih inside => exact .anyOf isBranch (ih (inside _ isBranch))
  | allOf accepted ih inside =>
    exact .allOf fun branch mem => ih branch mem (inside _ (List.mem_map_of_mem mem))
  | properties accepted ih inside =>
    refine .properties fun key part value isPart isValue => ?_
    exact ih key part value isPart isValue
      (inside _ (List.mem_map_of_mem (f := Prod.snd) (Table.mem_of_get? isPart)))
  | additionalProperties accepted ih inside =>
    refine .additionalProperties fun key value mem free => ?_
    exact ih key value mem free (inside _ (List.mem_singleton_self _))
  | propertyNames accepted ih inside =>
    exact .propertyNames fun key mem => ih key mem (inside _ (List.mem_singleton_self _))
  | items accepted ih inside =>
    exact .items fun value mem => ih value mem (inside _ (List.mem_singleton_self _))
  | positions accepted ih inside =>
    refine .positions fun i position value isPosition isValue => ?_
    exact ih i position value isPosition isValue
      (inside _ (List.mem_map_of_mem (List.mem_of_getElem? isPosition)))
  | additionalItems accepted ih inside =>
    refine .additionalItems fun i positions value isList beyond isValue => ?_
    exact ih i positions value isList beyond isValue (inside _ (List.mem_singleton_self _))
  | notObject isAboutObjects isOther => exact .notObject isAboutObjects isOther
  | notArray isAboutArrays isOther => exact .notArray isAboutArrays isOther

end SchemaBridge.Draft07
