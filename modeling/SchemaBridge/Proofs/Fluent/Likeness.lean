import SchemaBridge.Proofs.Fluent.Graphs
import SchemaBridge.Proofs.Fluent.Passing

/-!
# Nodes that are alike pass the same data

The validator looks at the layers of nodes and not at their identities. So it makes no difference to
it whether it meets a node or another one that is alike: what one passes the other one passes, with
the same output, and an entry that may be absent for one may be absent for the other.

## Main results

* `Fluent.Alike.absence` : nodes that are alike say the same about absent entries.
* `Fluent.Alike.passes` : nodes that are alike pass the same data.
-/

namespace SchemaBridge

namespace Fluent

variable {γ : Type} {scope : Scope γ}

/-- Nodes that are alike say the same about absent entries. -/
theorem Alike.absence {node node' : Schema γ} (h : Alike scope node node') (room : Nat) :
    Walk.absence scope room node = Walk.absence scope room node' := by
  induction room generalizing node node' with
  | zero => rfl
  | succ room ih =>
    have layers := h.layers
    rw [Walk.absence, Walk.absence]
    generalize node.payload.fluent? = x, node'.payload.fluent? = y at layers ⊢
    cases layers with
    | none => rfl
    | @some layer layer' same =>
      have kinds := same.kinds
      dsimp only
      generalize layer.kind = kind, layer'.kind = kind' at kinds ⊢
      cases kinds with
      | nullable part | refined _ _ _ part | branded _ _ part | transformed _ part => exact ih part
      | @deferred target target' answers =>
        have answers : AnswersAlike (Alike scope) (Walk.targetOf scope target)
            (Walk.targetOf scope target') := answers 0 0
        dsimp only
        generalize Walk.targetOf scope target = x, Walk.targetOf scope target' = y at answers ⊢
        cases x <;> cases y
        · exact congrArg Except.error answers
        · cases answers
        · cases answers
        · exact ih answers
      | _ => rfl

/-! ### Parts -/

theorem Items.mono {check more : Nat → Json → Json → Prop}
    (weaker : ∀ i value output, check i value output → more i value output) {i : Nat}
    {values outputs : List Json} (h : Items check i values outputs) :
    Items more i values outputs := by
  induction h with
  | nil => exact .nil _
  | cons first _ ih => exact .cons (weaker _ _ _ first) ih

theorem Entry.mono {key more value others : Json → Json → Prop}
    (keys : ∀ data output, key data output → more data output)
    (values : ∀ data output, value data output → others data output) {entry output : String × Json}
    (h : Entry key value entry output) : Entry more others entry output :=
  ⟨h.1, h.2.1.imp fun _ => keys _ _, values _ _ h.2.2⟩

section

variable {related : Schema γ → Schema γ → Prop} {check : Schema γ → Json → Json → Prop}
  {absence : Schema γ → Except VendorError Absence}
  (passes : ∀ a b, related a b → ∀ data output, check a data output → check b data output)
include passes

theorem Properties.of_related (absent : ∀ a b, related a b → absence a = absence b)
    {data before after : Json.Fields} {entries entries' : List (String × Schema γ)}
    (parts : List.Forall₂ (fun a b => a.1 = b.1 ∧ related a.2 b.2) entries entries')
    (h : Properties check absence data entries before after) :
    Properties check absence data entries' before after := by
  induction h generalizing entries' with
  | nil output =>
    cases parts
    exact .nil output
  | present found passed _ ih =>
    obtain _ | ⟨⟨rfl, part⟩, parts⟩ := parts
    exact .present found (passes _ _ part _ _ passed) (ih parts)
  | skipped absent' skip _ ih =>
    obtain _ | ⟨⟨rfl, part⟩, parts⟩ := parts
    exact .skipped absent' (absent _ _ part ▸ skip) (ih parts)
  | filled absent' fill _ ih =>
    obtain _ | ⟨⟨rfl, part⟩, parts⟩ := parts
    exact .filled absent' (absent _ _ part ▸ fill) (ih parts)

/-- Kinds over related nodes allow the same data, if related nodes pass the same. -/
theorem KindsAlike.allows (absent : ∀ a b, related a b → absence a = absence b)
    {kind kind' : Kind γ (Schema γ)} (h : KindsAlike scope related kind kind') {data output : Json}
    (allowed : Allows scope check absence kind data output) :
    Allows scope check absence kind' data output := by
  cases h with
  | leaf isLeaf => exact allowed
  | object parts =>
    obtain ⟨fields, outputs, rfl, rfl, allowed⟩ := allowed
    exact ⟨fields, outputs, rfl, rfl, allowed.of_related passes absent parts⟩
  | array part =>
    obtain ⟨values, outputs, rfl, rfl, allowed⟩ := allowed
    exact ⟨values, outputs, rfl, rfl, allowed.mono fun _ => passes _ _ part⟩
  | set part =>
    obtain ⟨values, outputs, rfl, rfl, allowed, new⟩ := allowed
    exact ⟨values, outputs, rfl, rfl, allowed.mono fun _ => passes _ _ part, new⟩
  | @tuple items items' rest rest' parts others =>
    obtain ⟨values, outputs, rfl, rfl, least, most, allowed⟩ := allowed
    have count := parts.length_eq
    refine ⟨values, outputs, rfl, rfl, count ▸ least, fun none => ?_, allowed.mono ?_⟩
    · subst none
      cases others
      exact count ▸ most rfl
    · intro i value output allowed
      have position := rel_getElem?_or_of_forall₂ parts others i
      generalize items[i]?.or rest = x, items'[i]?.or rest' = y at position allowed ⊢
      cases position with
      | none => exact allowed
      | some part => exact passes _ _ part _ _ allowed
  | union parts =>
    obtain ⟨option, mem, allowed⟩ := allowed
    obtain ⟨option', mem', part⟩ := exists_right_of_forall₂ parts mem
    exact ⟨option', mem', passes _ _ part _ _ allowed⟩
  | intersection parts =>
    refine ⟨fun b mem => ?_, allowed.2⟩
    obtain ⟨a, mem', part⟩ := exists_left_of_forall₂ parts mem
    exact (allowed.1 a mem').imp fun _ => passes _ _ part _ _
  | record keys values | map keys values =>
    obtain ⟨fields, outputs, rfl, rfl, allowed⟩ := allowed
    exact ⟨fields, outputs, rfl, rfl, allowed.imp fun _ _ =>
      Entry.mono (passes _ _ keys) (passes _ _ values)⟩
  | promise part | optional part | branded _ _ part | defaulted _ part =>
    exact passes _ _ part _ _ allowed
  | nullable part => exact allowed.imp_right (passes _ _ part _ _)
  | caught value part => exact allowed.imp_left (passes _ _ part _ _)
  | refined _ _ holds part => exact allowed.imp_left (passes _ _ part _ _)
  | transformed apply part => exact allowed.imp fun _ => And.imp_left (passes _ _ part _ _)
  | @deferred target target' answers =>
    obtain ⟨inner, given, allowed⟩ := allowed
    have answers : AnswersAlike related (Walk.targetOf scope target)
        (Walk.targetOf scope target') := answers 0 0
    rw [given] at answers
    cases given' : Walk.targetOf scope target' with
    | error => rw [given'] at answers; cases answers
    | ok inner' => rw [given'] at answers; exact ⟨inner', given', passes _ _ answers _ _ allowed⟩

end

/-- Nodes that are alike pass the same data. -/
theorem Alike.passes {node node' : Schema γ} (h : Alike scope node node') {room : Nat}
    {data output : Json} (passed : Passes scope room node data output) :
    Passes scope room node' data output := by
  induction room generalizing node node' data output with
  | zero => exact passed
  | succ room ih =>
    have layers := h.layers
    rw [Passes] at passed ⊢
    generalize node.payload.fluent? = x, node'.payload.fluent? = y at layers passed ⊢
    cases layers with
    | none => exact passed
    | some same =>
      obtain ⟨allowed, admits⟩ := passed
      have inside (a b : Schema γ) (part : Alike scope a b) (data output : Json)
          (passed : Passes scope room a data output) : Passes scope room b data output :=
        ih part passed
      have absent (a b : Schema γ) (part : Alike scope a b) :
          Walk.absence scope Walk.nestingLimit a = Walk.absence scope Walk.nestingLimit b :=
        part.absence Walk.nestingLimit
      exact ⟨same.kinds.allows inside absent allowed, same.constraints ▸ admits⟩

end Fluent

end SchemaBridge
