import SchemaBridge.Proofs.Compile.Shortening
import SchemaBridge.Proofs.Fluent.Repeating

/-!
# Containers of one node

A brand, an optional layer, a promise, a defined slot, a union of one option and an intersection of
one part ask nothing of data but what the node inside asks. They hand the data on in different ways:
directly, with the issues dropped and stated anew, or part by part. The verdict is that of the node
inside for all of them, and all but one give its output. An intersection checks its parts for their
verdict only and gives the data back, so that defaults, fallbacks and transformations inside it are
lost.

## Main definitions

* `Fluent.Kind.Encloses` : the kind hands data on to one node.
* `Fluent.Kind.outputOf` : what such a kind makes of the output of the node inside.

## Main results

* `Fluent.Walk.ComesTo.of_container` : what the container of a node comes to, the node comes to.
* `Fluent.container_parsed_iff` : the verdict and the output of a container.
-/

namespace SchemaBridge.Fluent

variable {γ : Type} {scope : Scope γ}

/-- The kind hands data on to one node, and to nothing else. -/
def Kind.Encloses (scope : Scope γ) (inner : Schema γ) : Kind γ (Schema γ) → Prop
  | .branded part _ | .optional part | .promise part => part = inner
  | .union parts | .intersection parts => parts = [inner]
  | .deferred target => Walk.targetOf scope target = .ok inner
  | _ => False

/-- What a kind that hands data on to one node makes of the output. -/
def Kind.outputOf {ν : Type} (kind : Kind γ ν) (data output : Json) : Json :=
  match kind with
  | .intersection _ => data
  | _ => output

namespace Walk

variable {check : Schema γ → Json → WalkM Json} {kind : Kind γ (Schema γ)} {inner : Schema γ}
  {data output : Json} {clean : Bool}

/-- A union of one option is clean if the option is, and comes to what the option comes to. -/
theorem ComesTo.of_union_singleton (again : Repeats (check inner data) (check inner data))
    (h : ComesTo (Walk.kind scope check (.union [inner]) data) output clean) :
    ∃ part, ComesTo (check inner data) part clean ∧ (clean = true → output = part) := by
  rcases again.comesTo_or_fails with ⟨part, clean', comes⟩ | fails
  · have found : ComesTo (firstOf (fun option => check option data) [inner])
        (if clean' then some part else none) true := by
      cases clean' with
      | true => exact ComesTo.bind comes.attempt (comesTo_pure (some part))
      | false => exact ComesTo.bind comes.attempt (comesTo_pure none)
    cases clean' with
    | true =>
      have whole : ComesTo (Walk.kind scope check (.union [inner]) data) part true :=
        found.bind (comesTo_pure part)
      obtain ⟨rfl, rfl⟩ := h.unique whole
      exact ⟨output, comes, fun _ => rfl⟩
    | false =>
      have whole : ComesTo (Walk.kind scope check (.union [inner]) data) data false :=
        found.bind ((comesTo_complain _).bind (comesTo_pure data))
      obtain ⟨-, rfl⟩ := h.unique whole
      exact ⟨part, comes, nofun⟩
  · exact absurd ((fails.attempt.bind _).bind _) h.not_fails

/-- An intersection of one part is clean if the part is, and comes to the data. -/
theorem ComesTo.of_intersection_singleton (again : Repeats (check inner data) (check inner data))
    (h : ComesTo (Walk.kind scope check (.intersection [inner]) data) output clean) :
    ∃ part, ComesTo (check inner data) part clean ∧ output = data := by
  rcases again.comesTo_or_fails with ⟨part, clean', comes⟩ | fails
  · have discarded : ComesTo (discard (check inner data)) () (clean' && true) :=
      ComesTo.bind comes (comesTo_pure ())
    have whole : ComesTo (Walk.kind scope check (.intersection [inner]) data) data
        ((clean' && true) && true && true) :=
      (discarded.bind (comesTo_pure ())).bind (comesTo_pure data)
    obtain ⟨rfl, rfl⟩ := h.unique whole
    exact ⟨part, by simpa using comes, rfl⟩
  · have discarded : Fails (discard (check inner data)) := fails.bind _
    exact absurd ((discarded.bind _).bind _) h.not_fails

/-- What the container of a node comes to on right data, it makes of what the node comes to; and it
is clean if the node is. -/
theorem ComesTo.of_container (encloses : kind.Encloses scope inner)
    (again : Repeats (check inner data) (check inner data))
    (h : ComesTo (Walk.kind scope check kind data) output clean) :
    ∃ part, ComesTo (check inner data) part clean ∧
      (clean = true → output = kind.outputOf data part) := by
  cases kind with
  | branded | optional | promise =>
    obtain rfl := encloses
    exact ⟨output, h, fun _ => rfl⟩
  | deferred target =>
    have gives : Walk.kind scope check (.deferred target) data = check inner data := by
      rw [Walk.kind, encloses]
      rfl
    rw [gives] at h
    exact ⟨output, h, fun _ => rfl⟩
  | union =>
    obtain rfl := encloses
    exact h.of_union_singleton again
  | intersection =>
    obtain rfl := encloses
    obtain ⟨part, comes, isData⟩ := h.of_intersection_singleton again
    exact ⟨part, comes, fun _ => isData⟩
  | _ => cases encloses

end Walk

variable {node inner : Schema γ} {layer : Layer γ} {data : Json} {outcome : VendorOutcome}

/-- What a container parses, it makes of what the node inside parses. -/
theorem container_parsed_iff_exists (seen : node.payload.fluent? = some layer)
    (encloses : layer.kind.Encloses scope inner) (plain : layer.details.constraints = .empty)
    (ended : (validate scope node data).value = .ok outcome) (result : Json) :
    (validate scope node data).value = .ok (.parsed result) ↔
      ∃ output, (validate scope inner data).value = .ok (.parsed output) ∧
        result = layer.kind.outputOf data output := by
  obtain ⟨output, clean, comes⟩ := comesTo_of_validate ended
  obtain ⟨clean', inside, isClean⟩ := comes.of_node seen
  rw [plain, and_iff_left (admits_empty data), ← Bool.eq_iff_iff] at isClean
  subst isClean
  -- The node inside has room for one more layer if it is not inside.
  obtain ⟨part, comesInside, isOutput⟩ := inside.of_container encloses
    (Walk.repeats_node scope Walk.nestingLimit 0 inner data)
  have alone := comesInside.of_le (Nat.le_succ Walk.nestingLimit)
  rw [parsed_iff_of_comesTo comes]
  constructor
  · rintro ⟨isClean, rfl⟩
    exact ⟨part, (parsed_iff_of_comesTo alone part).2 ⟨isClean, rfl⟩, isOutput isClean⟩
  · rintro ⟨output', parsed, rfl⟩
    obtain ⟨isClean, rfl⟩ := (parsed_iff_of_comesTo alone output').1 parsed
    exact ⟨isClean, (isOutput isClean).symm⟩

/-- The container of one node accepts the data that the node inside accepts. It gives the same
output unless it is an intersection, which gives the data back: the output is the same then if the
node inside changes nothing either. -/
theorem container_parsed_iff (seen : node.payload.fluent? = some layer)
    (encloses : layer.kind.Encloses scope inner) (plain : layer.details.constraints = .empty)
    (ended : (validate scope node data).value = .ok outcome) :
    ((∃ output, (validate scope node data).value = .ok (.parsed output)) ↔
        ∃ output, (validate scope inner data).value = .ok (.parsed output)) ∧
      ((∀ output, (validate scope node data).value = .ok (.parsed output) ↔
          (validate scope inner data).value = .ok (.parsed output)) ↔
        ∀ parts, layer.kind = .intersection parts → ∀ output,
          (validate scope inner data).value = .ok (.parsed output) → output = data) := by
  have parsed := container_parsed_iff_exists seen encloses plain ended
  refine ⟨?_, fun same parts isIntersection output inside => ?_, fun unchanged output => ?_⟩
  · constructor
    · rintro ⟨result, isParsed⟩
      obtain ⟨output, inside, -⟩ := (parsed result).1 isParsed
      exact ⟨output, inside⟩
    · rintro ⟨output, inside⟩
      exact ⟨_, (parsed _).2 ⟨output, inside, rfl⟩⟩
  · obtain ⟨_, -, isData⟩ := (parsed output).1 ((same output).2 inside)
    rwa [isIntersection] at isData
  · have given (output : Json) (inside : (validate scope inner data).value = .ok (.parsed output)) :
        layer.kind.outputOf data output = output := by
      generalize layer.kind = kind at unchanged
      cases kind with
      | intersection parts => exact (unchanged parts rfl output inside).symm
      | _ => rfl
    rw [parsed]
    constructor
    · rintro ⟨output', inside, rfl⟩
      rwa [given output' inside]
    · exact fun inside => ⟨output, inside, (given output inside).symm⟩

/-- A text, which is wrapped up. -/
def wrappedText : Schema Empty :=
  Call.plainNode 1 (.transformed (Call.plainNode 2 .string) fun text => .object [("wrapped", text)])

/-- A promise of a text that is wrapped up parses what the text parses, wrapped up. -/
theorem promisedText_parsed : ∃ outcome,
    (validate slotless (Call.plainNode 0 (.promise wrappedText)) (.string "x")).value =
        .ok outcome ∧
      ∀ output, (validate slotless (Call.plainNode 0 (.promise wrappedText))
          (.string "x")).value = .ok (.parsed output) ↔
        (validate slotless wrappedText (.string "x")).value = .ok (.parsed output) := by
  have seen : (Call.plainNode 0 (.promise wrappedText)).payload.fluent? =
      some ⟨.promise wrappedText, {}⟩ := rfl
  exact ⟨_, rfl, (container_parsed_iff seen rfl rfl rfl).2.2 nofun⟩

/-- An intersection of nothing but the text gives the text back as it is. -/
theorem intersectedText_unwrapped :
    (validate slotless wrappedText (.string "x")).value =
        .ok (.parsed (.object [("wrapped", .string "x")])) ∧
      (validate slotless (Call.plainNode 0 (.intersection [wrappedText]))
        (.string "x")).value = .ok (.parsed (.string "x")) :=
  ⟨rfl, rfl⟩

end SchemaBridge.Fluent
