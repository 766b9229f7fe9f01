import SchemaBridge.Proofs.Compile.Required
import SchemaBridge.Proofs.Plan.Parts

/-!
# The entries of objects

The calls for the entries of an object are made by the call that compiles it, one after the other.
What holds of the answers for entries that are compiled in two runs holds of these calls one by one.

## Main results

* `Call.CompilesObject.spawns` : the calls for the entries of an object are made by its call.
* `Call.entryCalls_forall₂` : the calls for entries in two runs.
-/

namespace SchemaBridge.Call

open Chain Ledger Compile Plan

variable {π : Type} {context : CompileContext π}

/-- An object whose structure is compiled tells its entries. -/
theorem entries_of_compile {levels : Nat} {base : Node π} {adapter : Adapter π} {s t : Ledger}
    {assembly : Assembly} (seen : adapter.shape? base = some .object)
    (runs : Structure.compile context (Compile.node context levels) base adapter s =
      (.ok assembly, t)) :
    ∃ entries supply, adapter.entries base s.supply = (.ok entries, supply) := by
  rcases given : adapter.entries base s.supply with ⟨error | entries, supply⟩
  · rw [Structure.compile, seen] at runs
    cases (Structure.carryOut_ask_of_error _ _ given).symm.trans runs
  · exact ⟨entries, supply, rfl⟩

/-- The run of the plan of an object compiles the entries that its adapter tells. -/
theorem visits_object {child : Node π → CompileM NodeSchema} {base part : Node π}
    {adapter : Adapter π} {s u : Ledger} {entries : List (String × Node π)} {supply : Nat}
    (gives : adapter.entries base s.supply = (.ok entries, supply))
    (visits : Visits child (Plan.entries entries) { s with supply } part u) :
    Visits child (Structure.ofShape context.options base adapter .object) s part u := by
  refine .ask gives ?_
  change Visits child (Plan.entries entries >>= fun cs =>
    pure ({ body := Structure.object cs, bounds := .properties } : Assembly)) _ _ _
  exact Structure.visits_bind visits

/-- Later entries are compiled after the first one. -/
theorem visits_entries_later {levels : Nat} {key : String} {first part : Node π}
    {rest : List (String × Node π)} {s u : Ledger}
    (visits : Visits (Compile.node context levels) (Plan.entries rest)
      (after context ⟨levels, first, s⟩) part u) :
    Visits (Compile.node context levels) (Plan.entries ((key, first) :: rest)) s part u := by
  refine .later ?_
  change Visits _ (Plan.entries rest >>= fun cs => pure ((key, _) :: cs)) _ _ _
  exact Structure.visits_bind visits

/-- The calls for entries are made when the entries are compiled. -/
theorem visits_of_mem_entryCalls {levels : Nat} {entries : List (String × Node π)} {s : Ledger}
    {entry : String × Call π} (mem : entry ∈ entryCalls context levels entries s) :
    entry.2.levels = levels ∧
      Visits (Compile.node context levels) (Plan.entries entries) s entry.2.node entry.2.books := by
  induction entries generalizing s with
  | nil => cases mem
  | cons first rest ih =>
    rcases List.mem_cons.1 mem with rfl | mem
    · exact ⟨rfl, .here⟩
    · obtain ⟨same, visits⟩ := ih mem
      exact ⟨same, visits_entries_later visits⟩

/-- A call for an entry is made by the call that compiles the object. -/
theorem CompilesObject.spawns {call : Call π} {entries : List (String × Call π)}
    (h : CompilesObject context call entries) {entry : String × Call π} (mem : entry ∈ entries) :
    Spawns context call entry.2 := by
  obtain ⟨new, claims, peels, seen, gives⟩ := h
  obtain ⟨key, entryLevels, part, u⟩ := entry
  obtain ⟨rfl, visits⟩ := visits_of_mem_entryCalls mem
  exact .intro new claims peels seen (visits_object gives visits)

variable {nodes : Node π → Node π → Prop} {answers : NodeSchema → NodeSchema → Prop}

/-- The calls for related entries are for related nodes, and have related answers if all parts do.
-/
theorem entryCalls_forall₂ {context' : CompileContext π} {levels levels' : Nat}
    {entries entries' : List (String × Node π)}
    (h : List.Forall₂ (fun a b => a.1 = b.1 ∧ nodes a.2 b.2) entries entries') {s s' : Ledger}
    (compiled : ∀ part u part' u', nodes part part' →
      Visits (Compile.node context levels) (Plan.entries entries) s part u →
      Visits (Compile.node context' levels') (Plan.entries entries') s' part' u' →
        answers (answer context ⟨levels, part, u⟩) (answer context' ⟨levels', part', u'⟩)) :
    List.Forall₂ (fun a b => a.1 = b.1 ∧ nodes a.2.node b.2.node ∧
        answers (a.2.answer context) (b.2.answer context'))
      (entryCalls context levels entries s) (entryCalls context' levels' entries' s') := by
  induction h generalizing s s' with
  | nil => exact .nil
  | cons first _ ih =>
    refine .cons ⟨first.1, first.2, compiled _ _ _ _ first.2 .here .here⟩ (ih ?_)
    intro part u part' u' parts visits visits'
    exact compiled part u part' u' parts (visits_entries_later visits)
      (visits_entries_later visits')

end SchemaBridge.Call
