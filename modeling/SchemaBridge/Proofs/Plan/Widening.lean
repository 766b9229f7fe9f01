import SchemaBridge.Proofs.Draft07.Widening
import SchemaBridge.Proofs.Plain.Unfolding

/-!
# Wider structures

Two plans may go the same way and get different answers for their parts. If the answers for the
parts of one are wider than those of the other, so is the structure that it comes to, and so is what
layers make of it. Two side results have a say in this. Constraints are written under keywords that
depend on the family of the bounds, so a schema is only wider if that is told alike, or there are no
constraints. And an object lists the keys of its entries by whether they are optional, so objects
are left to those who know that.

## Main definitions

* `NodeSchema.Wider`, `Assembly.Wider` : an answer and an assembly are wider than another one.
* `Plan.Follows` : two plans go the same way as long as the answers for their parts are related.

## Main results

* `Assembly.Wider.schema`, `Assembly.Wider.addLayer` : what layers make of a wider assembly.
* `Structure.carryOut_follows` : plans that go the same way come to related values.
* `Structure.ofShape_follows` : the plans of all shapes but objects come to wider structures.
-/

namespace SchemaBridge

open Draft07

variable {π : Type} {targets : Targets}

/-! ### Layers -/

/-- An answer is wider than another one: its schema is, and it tells the same family of bounds, or
none. -/
structure NodeSchema.Wider (targets : Targets) (c c' : NodeSchema) : Prop where
  schema : Widens targets c.schema c'.schema
  bounds : c.bounds = c'.bounds ∨ c.bounds = .value

/-- An assembly is wider than another one: its structure is, and the layers around it are the same.
-/
structure Assembly.Wider (targets : Targets) (f f' : Assembly) : Prop where
  body : Widens targets f.body f'.body
  bounds : f.bounds = f'.bounds ∨ f.bounds = .value
  constraints : f.constraints = f'.constraints
  annotations : f.annotations = f'.annotations
  nullable : f.nullable = f'.nullable

namespace Assembly

variable {f f' : Assembly}

/-- What is done to a schema is to write some keywords over it, always the same. -/
private def WritesOver (write : Json.Fields → Json.Fields) : Prop :=
  ∃ cover, AreOverlays cover ∧ ∀ schema, write schema = overlay schema cover

private theorem WritesOver.writeAll {write : Json.Fields → Json.Fields} (h : WritesOver write)
    {entries : List (String × Option Json)} (mem : entries.map Prod.fst ⊆ overlays) :
    WritesOver fun schema => Table.writeAll (write schema) entries := by
  induction entries generalizing write with
  | nil => exact h
  | cons first rest ih =>
    obtain ⟨here, later⟩ := List.cons_subset.1 mem
    obtain ⟨cover, areOverlays, written⟩ := h
    have next : WritesOver fun schema => Table.putSome (write schema) first.1 first.2 := by
      refine ⟨cover ++ Structure.optionally first.1 first.2,
        areOverlays.append (areOverlays_optionally here first.2), fun schema => ?_⟩
      dsimp only
      rw [written, ← overlay_append]
      cases first.2 <;> rfl
    exact ih next later

private theorem writesOver_writeAll {entries : List (String × Option Json)}
    (mem : entries.map Prod.fst ⊆ overlays) :
    WritesOver fun schema => Table.writeAll schema entries := by
  have nothing : WritesOver id := ⟨[], List.nil_subset _, fun _ => rfl⟩
  exact nothing.writeAll mem

private theorem writesOver_writeConstraints (c : Constraints) (family : BoundsFamily) :
    WritesOver (writeConstraints c family) := by
  have known : Constraints.keywords ⊆ overlays := by decide
  exact writesOver_writeAll (List.Subset.trans (c.keys_entries_subset family) known)

private theorem writesOver_write (a : Annotations) : WritesOver a.write := by
  have known : Annotations.keywords ⊆ overlays := by decide
  exact writesOver_writeAll (a.keys_entries ▸ known)

private theorem WritesOver.widens {write : Json.Fields → Json.Fields} (h : WritesOver write)
    {wide narrow : Json.Fields} (widens : Widens targets wide narrow) :
    Widens targets (write wide) (write narrow) := by
  obtain ⟨cover, areOverlays, written⟩ := h
  rw [written, written]
  exact widens.overlay areOverlays

/-- Constraints stand beside a structure that is no reference. -/
theorem constrained_of_plain (plain : Table.get? f.body "$ref" = none) :
    f.constrained = writeConstraints f.constraints f.bounds f.body := by
  rw [constrained, Table.has, plain]
  rfl

/-- The schema of a wider assembly is wider, if constraints are written under the same keywords. -/
theorem Wider.schema (h : f.Wider targets f')
    (same : f.constraints = .empty ∨ f.bounds = f'.bounds) : Widens targets f.schema f'.schema := by
  have constrained : Widens targets f.constrained f'.constrained := by
    rw [constrained_of_plain h.body.plain, constrained_of_plain h.body.plain', ← h.constraints]
    rcases same with free | same
    · rw [free]
      exact h.body
    · rw [same]
      exact (writesOver_writeConstraints _ _).widens h.body
  rw [Assembly.schema, Assembly.schema, h.annotations, h.nullable]
  refine (writesOver_write _).widens ?_
  split
  · exact constrained.orNull
  · exact constrained

theorem addLayer_bounds (f : Assembly) (adapter : Adapter π) (node : Node π)
    (modifier : Option Modifier) : (f.addLayer adapter node modifier).bounds = f.bounds := by
  unfold addLayer
  dsimp only
  split <;> rfl

/-- A layer keeps an assembly wider. -/
theorem Wider.addLayer (h : f.Wider targets f') {nodes : Node π → Node π → Prop}
    {adapter adapter' : Adapter π} {node node' : Node π}
    (alike : Adapter.Alike nodes adapter adapter' node node') (modifier : Option Modifier) :
    (f.addLayer adapter node modifier).Wider targets (f'.addLayer adapter' node' modifier) := by
  rw [← addLayer_congr alike]
  have added : (f.add adapter node).Wider targets (f'.add adapter node) := by
    refine ⟨h.body, h.bounds, ?_, ?_, h.nullable⟩
    · rw [add, add, h.constraints]
    · rw [add, add, h.annotations]
  unfold Assembly.addLayer
  dsimp only
  split
  · exact { added with nullable := rfl }
  · exact added

end Assembly

/-! ### Answers that are alike -/

namespace Answer

variable {α α' : Type} {related : α → α' → Prop} {answer : Answer α} {answer' : Answer α'} {a : α}

theorem Alike.partners (h : Alike related answer answer') (gives : Gives answer a) {a' : α'}
    (gives' : Gives answer' a') : related a a' := by
  obtain ⟨s, given⟩ := gives
  obtain ⟨s', given'⟩ := gives'
  have both := h s s'
  rw [given, given'] at both
  cases both with
  | given h => exact h

theorem Alike.not_fails (h : Alike related answer answer') (gives : Gives answer a)
    (error : VendorError) : ¬ Fails answer' error := by
  rintro ⟨s', fails⟩
  obtain ⟨s, given⟩ := gives
  have both := h s s'
  rw [given, fails] at both
  cases both

/-- What is answered at one time is answered in the same way by an alike question at any time. -/
theorem Alike.exists_right (h : Alike related answer answer') (gives : Gives answer a) (s' : Nat) :
    ∃ a' t, answer' s' = (.ok a', t) ∧ related a a' := by
  obtain ⟨s, given⟩ := gives
  have both := h s s'
  rw [given] at both
  rcases result : answer' s' with ⟨error | a', t⟩
  · rw [result] at both
    cases both
  · rw [result] at both
    cases both with
    | given h => exact ⟨a', t, rfl, h⟩

/-- A question is answered at any time if an alike one is answered at one time. -/
theorem Alike.exists_left (h : Alike related answer answer') {a' : α'} (gives : Gives answer' a')
    (s : Nat) : ∃ a t, answer s = (.ok a, t) ∧ related a a' := by
  obtain ⟨s', given⟩ := gives
  have both := h s s'
  rw [given] at both
  rcases result : answer s with ⟨error | a, t⟩
  · rw [result] at both
    cases both
  · rw [result] at both
    cases both with
    | given h => exact ⟨a, t, rfl, h⟩

end Answer

/-! ### Plans -/

namespace Plan

variable {nodes : Node π → Node π → Prop} {answers : NodeSchema → NodeSchema → Prop}
  {α α' β β' : Type}

/-- Two plans go the same way as long as the answers for their parts are related: they put questions
that are answered alike, compile related parts, and come to related values. -/
inductive Follows (nodes : Node π → Node π → Prop) (answers : NodeSchema → NodeSchema → Prop) :
    {α α' : Type} → (α → α' → Prop) → Plan π α → Plan π α' → Prop where
  | done {α α' : Type} {related : α → α' → Prop} {a : α} {a' : α'} (h : related a a') :
      Follows nodes answers related (.done a) (.done a')
  | ask {α α' γ γ' : Type} {related : α → α' → Prop} {given : γ → γ' → Prop} {answer : Answer γ}
      {answer' : Answer γ'} {next : γ → Plan π α} {next' : γ' → Plan π α'}
      (alike : Answer.Alike given answer answer')
      (rest : ∀ a a', given a a' → Follows nodes answers related (next a) (next' a')) :
      Follows nodes answers related (.ask answer next) (.ask answer' next')
  | compile {α α' : Type} {related : α → α' → Prop} {part part' : Node π}
      {next : NodeSchema → Plan π α} {next' : NodeSchema → Plan π α'} (parts : nodes part part')
      (rest : ∀ c c', answers c c' → Follows nodes answers related (next c) (next' c')) :
      Follows nodes answers related (.compile part next) (.compile part' next')

theorem Follows.bind {first : α → α' → Prop} {second : β → β' → Prop} {plan : Plan π α}
    {plan' : Plan π α'} {after : α → Plan π β} {after' : α' → Plan π β'}
    (h : Follows nodes answers first plan plan')
    (rest : ∀ a a', first a a' → Follows nodes answers second (after a) (after' a')) :
    Follows nodes answers second (plan >>= after) (plan' >>= after') := by
  change Follows nodes answers second (plan.andThen after) (plan'.andThen after')
  induction h with
  | done h => exact rest _ _ h
  | ask alike _ ih => exact .ask alike fun a a' given => ih a a' given rest
  | compile parts _ ih => exact .compile parts fun c c' related => ih c c' related rest

theorem follows_question {given : α → α' → Prop} {answer : Answer α} {answer' : Answer α'}
    (alike : Answer.Alike given answer answer') :
    Follows nodes answers given (question answer) (question answer') :=
  .ask alike fun _ _ => .done

theorem follows_part {part part' : Node π} (h : nodes part part') :
    Follows nodes answers answers (Plan.part part) (Plan.part part') :=
  .compile h fun _ _ => .done

theorem follows_part? {part part' : Option (Node π)} (h : Option.Rel nodes part part') :
    Follows nodes answers (Option.Rel answers) (Plan.part? part) (Plan.part? part') := by
  cases h with
  | none => exact .done .none
  | some h => exact (follows_part h).bind fun _ _ related => .done (.some related)

theorem follows_parts {parts parts' : List (Node π)} (h : List.Forall₂ nodes parts parts') :
    Follows nodes answers (List.Forall₂ answers) (Plan.parts parts) (Plan.parts parts') := by
  induction h with
  | nil => exact .done .nil
  | cons first _ ih =>
    exact (follows_part first).bind fun _ _ related => ih.bind fun _ _ others =>
      .done (.cons related others)

end Plan

namespace Structure

open Plan

/-- Plans that go the same way come to related values, if related parts compile to related schemas:
if the first one comes to a value, so does the second one. -/
theorem carryOut_follows {child child' : Node π → CompileM NodeSchema}
    {nodes : Node π → Node π → Prop} {answers : NodeSchema → NodeSchema → Prop} {α α' : Type}
    {related : α → α' → Prop} {plan : Plan π α} {plan' : Plan π α'}
    (follows : Follows nodes answers related plan plan') {s s' t : Ledger} {a : α}
    (run : carryOut child plan s = (.ok a, t))
    (compiled : ∀ part u part' u', nodes part part' → Visits child plan s part u →
      Visits child' plan' s' part' u' → answers (child part u).1 (child' part' u').1) :
    ∃ a' t', carryOut child' plan' s' = (.ok a', t') ∧ related a a' := by
  induction follows generalizing s s' with
  | done h =>
    obtain rfl := Except.ok.inj (Prod.mk.inj run).1
    exact ⟨_, s', rfl, h⟩
  | @ask _ _ _ _ answer answer' next next' alike _ ih =>
    rcases given : answer s.supply with ⟨error | value, supply⟩
    · rw [carryOut_ask_of_error child _ given] at run
      cases run
    · obtain ⟨value', supply', given', h⟩ :=
        alike.exists_right ⟨_, congrArg Prod.fst given⟩ s'.supply
      rw [carryOut_ask_of_ok child _ given] at run
      rw [carryOut_ask_of_ok child' _ given']
      exact ih _ _ h run fun part u part' u' parts visits visits' =>
        compiled part u part' u' parts (.ask given visits) (.ask given' visits')
  | @compile _ part part' next next' parts _ ih =>
    rw [carryOut_compile] at run ⊢
    exact ih _ _ (compiled part s part' s' parts .here .here) run
      fun part u part' u' parts visits visits' =>
        compiled part u part' u' parts (.later visits) (.later visits')

variable {nodes : Node π → Node π → Prop} {adapter adapter' : Adapter π} {n n' : Node π}

/-- The plans for the structures of nodes that are seen alike go the same way, and come to wider
structures if the answers for the parts are wider. Objects are left out, since the keys that they
list depend on more than the schemas of their entries. -/
theorem ofShape_follows (options : DocumentOptions) (h : Adapter.Alike nodes adapter adapter' n n')
    {shape : Shape} (notObject : shape ≠ .object) :
    Follows nodes (NodeSchema.Wider targets) (Assembly.Wider targets)
      (ofShape options n adapter shape) (ofShape options n' adapter' shape) := by
  have plain {body body' : Json.Fields} (bounds : BoundsFamily)
    (widens : Widens targets body body') :
      Assembly.Wider targets { body, bounds } { body := body', bounds } :=
    ⟨widens, .inl rfl, rfl, rfl, rfl⟩
  have schemas {cs cs' : List NodeSchema} (wider : List.Forall₂ (NodeSchema.Wider targets) cs cs') :
      List.Forall₂ (fun c c' => Widens targets c.schema c'.schema) cs cs' :=
    wider.imp fun _ _ => NodeSchema.Wider.schema
  have schema {c c' : Option NodeSchema} (wider : Option.Rel (NodeSchema.Wider targets) c c') :
      Option.Rel (fun c c' => Widens targets c.schema c'.schema) c c' := by
    cases wider with
    | none => exact .none
    | some wider => exact .some wider.schema
  cases shape with
  | object => exact absurd rfl notObject
  | literal =>
    rw [ofShape, ofShape, h.literal]
    refine .done (plain _ (.refl ?_))
    cases adapter'.literal n' <;> rfl
  | enumeration =>
    rw [ofShape, ofShape, h.values]
    refine .done (plain _ (.refl ?_))
    split <;> rfl
  | instanceOf =>
    rw [ofShape, ofShape, h.className]
    refine .done (plain _ (.refl ?_))
    split <;> rfl
  | promise =>
    refine (follows_question h.awaited).bind fun inner inner' related => ?_
    cases related with
    | none => exact .done (plain _ (.refl rfl))
    | some related =>
      exact (follows_part related).bind fun c c' wider =>
        .done ⟨wider.schema, wider.bounds, rfl, rfl, rfl⟩
  | union =>
    refine (follows_question h.options).bind fun options options' related => ?_
    refine (follows_parts related).bind fun cs cs' wider => ?_
    cases wider with
    | nil => exact .done (plain _ (widens_union .nil))
    | cons first others =>
      cases others with
      | nil => exact .done ⟨first.schema, first.bounds, rfl, rfl, rfl⟩
      | cons second others =>
        exact .done (plain _ (widens_union (schemas (.cons first (.cons second others)))))
  | intersection =>
    exact (follows_question h.parts).bind fun parts parts' related =>
      (follows_parts related).bind fun cs cs' wider =>
        .done (plain _ (widens_intersection (schemas wider)))
  | tuple =>
    exact (follows_question h.positions).bind fun positions positions' related =>
      (follows_parts related).bind fun cs cs' wider =>
        (follows_question h.rest).bind fun rest rest' related =>
          (follows_part? related).bind fun c c' widerRest =>
            .done (plain _ (widens_tuple (schemas wider) (schema widerRest)))
  | array =>
    exact (follows_question h.element).bind fun element element' related =>
      (follows_part? related).bind fun c c' wider => .done (plain _ (widens_array (schema wider)))
  | set =>
    exact (follows_question h.member).bind fun element element' related =>
      (follows_part? related).bind fun c c' wider => .done (plain _ (widens_set (schema wider)))
  | record =>
    exact (follows_question h.recordKey).bind fun key key' keys =>
      (follows_question h.recordValue).bind fun value value' values =>
        (follows_part? keys).bind fun k k' widerKey =>
          (follows_part? values).bind fun c c' wider =>
            .done (plain _ (widens_keyed (schema wider) (schema widerKey)))
  | map =>
    exact (follows_question h.mapKey).bind fun key key' keys =>
      (follows_question h.mapValue).bind fun value value' values =>
        (follows_part? keys).bind fun k k' widerKey =>
          (follows_part? values).bind fun c c' wider =>
            .done (plain _ (widens_keyed (schema wider) (schema widerKey)))
  | _ => exact .done (plain _ (.refl rfl))

end Structure

end SchemaBridge
