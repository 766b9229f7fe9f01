import Mathlib.Data.List.Nodup
import SchemaBridge.Compile.Ledger

/-!
# New names are free

A generated name is a stem followed by a number, and numbers are tried from a counter on. Among one
more number than names are in use there is one whose name is free, because different numbers give
different names. So a name that is handed out is never one that is in use, whether it is generated
or the title of a node.

## Main results

* `Ledger.firstFree_notMem` : the name that the search returns is free.
* `Ledger.newName_apply` : a new name is free, and only the counter and the reports change.
-/

namespace SchemaBridge

namespace Ledger

variable {π : Type}

open CompileM Stateful

/-! ### The search for a free name -/

private theorem toString_injective : Function.Injective (toString : Nat → String) := by
  intro a b h
  have digits : Nat.toDigits 10 a = Nat.toDigits 10 b := by
    rw [← Nat.toList_repr, ← Nat.toList_repr]
    exact congrArg String.toList h
  have value := congrArg (Nat.ofDigitChars 10 · 0) digits
  simpa using value

/-- Different numbers give different names. -/
theorem numbered_injective (stem : String) :
    Function.Injective fun counter : Nat => stem ++ toString counter := by
  intro a b h
  refine toString_injective (String.toList_inj.1 ?_)
  have lists := congrArg String.toList h
  simpa using lists

/-- If the search ends with a name in use, it has only seen names in use. -/
private theorem numbered_mem_of_firstFree_mem {stem : String} {used : List String} :
    ∀ {tries counter : Nat}, (firstFree stem used tries counter).1 ∈ used →
      ∀ i ≤ tries, stem ++ toString (counter + i) ∈ used
  | 0, counter, h, i, hi => by
    obtain rfl := Nat.le_zero.1 hi
    simpa only [firstFree, Nat.add_zero] using h
  | tries + 1, counter, h, i, hi => by
    rw [firstFree] at h
    split at h
    next taken =>
      cases i with
      | zero => simpa using taken
      | succ i =>
        have later := numbered_mem_of_firstFree_mem h i (by omega)
        rwa [Nat.add_right_comm] at later
    next free => exact absurd (List.contains_iff_mem.2 h) free

/-- The search returns a free name if it may look at one more name than are in use. -/
theorem firstFree_notMem (stem : String) (used : List String) (counter : Nat) :
    (firstFree stem used used.length counter).1 ∉ used := by
  intro taken
  have seen := numbered_mem_of_firstFree_mem taken
  let candidates := (List.range (used.length + 1)).map fun i => stem ++ toString (counter + i)
  have distinct : candidates.Nodup := by
    refine List.Nodup.map ?_ List.nodup_range
    exact (numbered_injective stem).comp fun i j h => Nat.add_left_cancel h
  have inside : candidates ⊆ used := by
    intro name h
    obtain ⟨i, hi, rfl⟩ := List.mem_map.1 h
    exact seen i (Nat.lt_succ_iff.1 (List.mem_range.1 hi))
  have count := distinct.length_le_of_subset inside
  simp only [candidates, List.length_map, List.length_range] at count
  omega

/-- The search only moves the counter on. -/
theorem le_firstFree (stem : String) (used : List String) :
    ∀ tries counter : Nat, counter ≤ (firstFree stem used tries counter).2
  | 0, counter => Nat.le_succ counter
  | tries + 1, counter => by
    rw [firstFree]
    split
    · exact Nat.le_trans (Nat.le_succ counter) (le_firstFree stem used tries (counter + 1))
    · exact Nat.le_succ counter

/-! ### New names -/

theorem generatedName_apply (stem : String) (s : Ledger) :
    generatedName stem s = ((firstFree stem s.used s.used.length s.nextNumber).1,
      { s with nextNumber := (firstFree stem s.used s.used.length s.nextNumber).2 }) := rfl

/-- Reading a title reports at most, and what it returns is a free name. -/
theorem titleName?_apply (context : CompileContext π) (node : Node π) (s : Ledger) :
    ∃ events, (titleName? context node s).2 = { s with events := events ++ s.events } ∧
      ∀ title, (titleName? context node s).1 = some title →
        isPlainName title = true ∧ title ∉ s.used := by
  unfold titleName?
  split
  · refine ⟨(context.registry.resolve node).events.reverse, rfl, fun title h => ?_⟩
    have kept := (Option.filter_eq_some_iff.1 h).2
    simpa using kept
  · exact ⟨[], rfl, fun title h => nomatch h⟩

/-- A new name is free; giving it moves the counter on and reports, and does nothing else. -/
theorem newName_apply (context : CompileContext π) (node : Node π) (s : Ledger) :
    ∃ number events, (newName context node s).2 =
        { s with nextNumber := number, events := events ++ s.events } ∧
      s.nextNumber ≤ number ∧ (newName context node s).1 ∉ s.used := by
  obtain ⟨events, state, free⟩ := titleName?_apply context node s
  rw [newName, bind_apply]
  cases h : (titleName? context node s).1 with
  | some title => exact ⟨s.nextNumber, events, state, Nat.le_refl _, (free title h).2⟩
  | none =>
    refine ⟨_, events, ?_, le_firstFree context.options.defStem s.used s.used.length _, ?_⟩
    · change (generatedName context.options.defStem (titleName? context node s).2).2 = _
      rw [state, generatedName_apply]
    · change (generatedName context.options.defStem (titleName? context node s).2).1 ∉ _
      rw [state, generatedName_apply]
      exact firstFree_notMem _ _ _

end Ledger

end SchemaBridge
