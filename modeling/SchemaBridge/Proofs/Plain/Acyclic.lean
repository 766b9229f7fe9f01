import Mathlib.Logic.Relation
import SchemaBridge.Proofs.Plan.Outcome

/-!
# Acyclic schemas

Below a node stand the nodes that are built when it is unfolded: the node inside its modifier, and
the parts of its structure. A getter may build other nodes every time it is asked, so that what
stands below a node depends on which identities are still unused; a schema is acyclic if nothing
ever stands below itself, where identities that are used up are never handed out again.

## Main definitions

* `Plan.Grows`, `Adapter.Grows` : a plan and an adapter only use identities up.
* `Plan.Offers` : the parts that a plan may compile from some moment on.
* `Arrival`, `Arrival.Below` : a node at some moment, and what stands directly below it.
* `Acyclic` : nothing stands below itself.
* `OnPath` : the nodes on the way from the root to a node.

## Main results

* `OnPath.notMem` : in an acyclic schema a node is not on the way to itself.
-/

namespace SchemaBridge

variable {π α β : Type}

/-- Answering uses identities up, and never gives one back. -/
def Answer.Grows (answer : Answer β) : Prop := ∀ supply, supply ≤ (answer supply).2

theorem Answer.Grows.le {answer : Answer β} (h : answer.Grows) {supply later : Nat}
    {result : Except VendorError β} (answered : answer supply = (result, later)) :
    supply ≤ later := by
  have := h supply
  rwa [answered] at this

namespace Plan

/-- The questions of a plan only use identities up. -/
def Grows : Plan π α → Prop
  | done _ => True
  | ask answer next => answer.Grows ∧ ∀ given, (next given).Grows
  | compile _ next => ∀ c, (next c).Grows

theorem grows_bind {plan : Plan π α} {after : α → Plan π β} (h : plan.Grows)
    (rest : ∀ a, (after a).Grows) : (plan >>= after).Grows := by
  change (plan.andThen after).Grows
  induction plan with
  | done a => exact rest a
  | ask answer next ih => exact ⟨h.1, fun given => ih given (h.2 given)⟩
  | compile part next ih => exact fun c => ih c (h c)

theorem grows_question {answer : Answer α} (h : answer.Grows) :
    (question answer : Plan π α).Grows :=
  And.intro h fun _ => trivial

theorem grows_part (node : Node π) : (part node).Grows := fun _ => trivial

theorem grows_part? (node : Option (Node π)) : (part? node).Grows := by
  cases node with
  | none => trivial
  | some node => exact grows_bind (grows_part node) fun _ => trivial

theorem grows_parts (nodes : List (Node π)) : (parts nodes).Grows := by
  induction nodes with
  | nil => trivial
  | cons node rest ih => exact grows_bind (grows_part node) fun c => grows_bind ih fun _ => trivial

theorem grows_entries (entries : List (String × Node π)) : (Plan.entries entries).Grows := by
  induction entries with
  | nil => trivial
  | cons entry rest ih => exact grows_bind (grows_part _) fun c => grows_bind ih fun _ => trivial

/-- A plan that is carried out from some moment on may compile a part at another moment. -/
inductive Offers : Nat → Plan π α → Nat → Node π → Prop where
  | here {before now : Nat} {part : Node π} {next : NodeSchema → Plan π α} (le : before ≤ now) :
      Offers before (.compile part next) now part
  | later {before between now : Nat} {part other : Node π} {next : NodeSchema → Plan π α}
      {c : NodeSchema} (le : before ≤ between) (rest : Offers between (next c) now other) :
      Offers before (.compile part next) now other
  | ask {γ : Type} {before asked answered now : Nat} {answer : Answer γ} {next : γ → Plan π α}
      {given : γ} {other : Node π} (le : before ≤ asked)
      (gives : answer asked = (.ok given, answered))
      (rest : Offers answered (next given) now other) :
      Offers before (.ask answer next) now other

end Plan

/-- All answers about the nodes below a node only use identities up. -/
structure Adapter.Grows (adapter : Adapter π) (node : Node π) : Prop where
  inner : (adapter.inner node).Grows
  entries : (adapter.entries node).Grows
  element : (adapter.element node).Grows
  options : (adapter.options node).Grows
  positions : (adapter.positions node).Grows
  rest : (adapter.rest node).Grows
  recordKey : (adapter.recordKey node).Grows
  recordValue : (adapter.recordValue node).Grows
  mapKey : (adapter.mapKey node).Grows
  mapValue : (adapter.mapValue node).Grows
  member : (adapter.member node).Grows
  parts : (adapter.parts node).Grows
  awaited : (adapter.awaited node).Grows

namespace Structure

open Plan

/-- The plan of a shape only uses identities up if the answers do. -/
theorem grows_ofShape {adapter : Adapter π} {node : Node π} (h : adapter.Grows node)
    (options : DocumentOptions) (shape : Shape) :
    (ofShape options node adapter shape).Grows := by
  cases shape with
  | promise =>
    refine grows_bind (grows_question h.awaited) fun given => ?_
    cases given with
    | none => trivial
    | some => exact grows_bind (grows_part _) fun _ => trivial
  | union =>
    refine grows_bind (grows_question h.options) fun _ => grows_bind (grows_parts _) fun cs => ?_
    split <;> trivial
  | intersection =>
    exact grows_bind (grows_question h.parts) fun _ =>
      grows_bind (grows_parts _) fun _ => trivial
  | tuple =>
    exact grows_bind (grows_question h.positions) fun _ => grows_bind (grows_parts _) fun _ =>
      grows_bind (grows_question h.rest) fun _ => grows_bind (grows_part? _) fun _ => trivial
  | object =>
    exact grows_bind (grows_question h.entries) fun _ =>
      grows_bind (grows_entries _) fun _ => trivial
  | array =>
    exact grows_bind (grows_question h.element) fun _ =>
      grows_bind (grows_part? _) fun _ => trivial
  | record =>
    exact grows_bind (grows_question h.recordKey) fun _ =>
      grows_bind (grows_question h.recordValue) fun _ => grows_bind (grows_part? _) fun _ =>
        grows_bind (grows_part? _) fun _ => trivial
  | map =>
    exact grows_bind (grows_question h.mapKey) fun _ =>
      grows_bind (grows_question h.mapValue) fun _ => grows_bind (grows_part? _) fun _ =>
        grows_bind (grows_part? _) fun _ => trivial
  | set =>
    exact grows_bind (grows_question h.member) fun _ =>
      grows_bind (grows_part? _) fun _ => trivial
  | _ => trivial

end Structure

/-- A node at some moment, which is told by the next unused identity. -/
structure Arrival (π : Type) where
  supply : Nat
  node : Node π

namespace Arrival

variable {context : CompileContext π}

/-- A node stands directly below another: it is inside its modifier, or a part of its structure. -/
inductive Below (context : CompileContext π) : Arrival π → Arrival π → Prop where
  | inside {a : Arrival π} {adapter : Adapter π} {modifier : Modifier} {asked answered : Nat}
      {inner : Node π} (claims : (context.registry.resolve a.node).value = some adapter)
      (wrapped : adapter.modifier? a.node = some modifier) (le : a.supply ≤ asked)
      (gives : adapter.inner a.node asked = (.ok (some inner), answered)) :
      Below context a ⟨answered, inner⟩
  | part {a : Arrival π} {adapter : Adapter π} {shape : Shape} {now : Nat} {part : Node π}
      (claims : (context.registry.resolve a.node).value = some adapter)
      (bare : adapter.modifier? a.node = none ∨
        ∃ asked answered, a.supply ≤ asked ∧ adapter.inner a.node asked = (.ok none, answered))
      (seen : adapter.shape? a.node = some shape)
      (offers : Plan.Offers a.supply (Structure.ofShape context.options a.node adapter shape) now
        part) :
      Below context a ⟨now, part⟩

/-- A node is reached from another, at once or at any depth, or is that node. -/
def Reaches (context : CompileContext π) : Arrival π → Arrival π → Prop :=
  Relation.ReflTransGen (Below context)

end Arrival

open Arrival

/-- No node that is reached from the root stands below itself, and answers about such nodes only use
identities up. -/
structure Acyclic (context : CompileContext π) (root : Arrival π) : Prop where
  grows : ∀ a, Reaches context root a → ∀ adapter,
    (context.registry.resolve a.node).value = some adapter →
      (adapter.inner a.node).Grows ∧ ∀ shape, adapter.shape? a.node = some shape →
        (Structure.ofShape context.options a.node adapter shape).Grows
  loopless : ∀ a b, Reaches context root a → Relation.TransGen (Below context) a b →
    b.node.id ≠ a.node.id

/-- The nodes on the way from the root to a node: each is reached from the root, and the node stands
below it. -/
structure OnPath (context : CompileContext π) (root a : Arrival π) (path : List Identity) :
    Prop where
  reached : Reaches context root a
  above : ∀ id ∈ path, ∃ b, Reaches context root b ∧ b.node.id = id ∧
    Relation.TransGen (Below context) b a

namespace OnPath

variable {context : CompileContext π} {root a b : Arrival π} {path : List Identity}

theorem start (context : CompileContext π) (root : Arrival π) : OnPath context root root [] :=
  ⟨.refl, fun _ h => nomatch h⟩

theorem below (h : OnPath context root a path) (step : Below context a b) :
    OnPath context root b (a.node.id :: path) where
  reached := h.reached.tail step
  above id mem := by
    rcases List.mem_cons.1 mem with rfl | mem
    · exact ⟨a, h.reached, rfl, .single step⟩
    · obtain ⟨c, reached, same, further⟩ := h.above id mem
      exact ⟨c, reached, same, further.tail step⟩

/-- In an acyclic schema a node is not on the way to itself. -/
theorem notMem (h : OnPath context root a path) (acyclic : Acyclic context root) :
    a.node.id ∉ path := by
  intro mem
  obtain ⟨b, reached, same, further⟩ := h.above _ mem
  exact acyclic.loopless b a reached further same.symm

end OnPath

end SchemaBridge
