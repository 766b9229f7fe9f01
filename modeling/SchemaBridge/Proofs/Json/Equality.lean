import Mathlib.Data.List.Perm.Subperm
import SchemaBridge.Json.Basic

/-!
# Equality of values

Equality of objects goes through the entries of the one object and looks their keys up in the other.
It is symmetric nevertheless: no object has a key twice, so that two objects of equally many entries
have the same keys as soon as the one has all keys of the other.

## Main results

* `Json.same_symm` : equality of well-formed values is symmetric.
-/

namespace SchemaBridge

theorem Number.same_comm (a b : Number) : a.same b = b.same a := by
  cases a with
  | integer i =>
    cases b with
    | integer j => exact Bool.beq_comm
    | float y => rfl
  | float x =>
    cases b with
    | integer j => rfl
    | float y => cases x <;> cases y <;> first | rfl | exact Bool.beq_comm

namespace Json

theorem WellFormedItems.of_mem {items : List Json} (h : WellFormedItems items) {j : Json}
    (mem : j ∈ items) : j.WellFormed := by
  induction items with
  | nil => cases mem
  | cons first rest ih =>
    rw [WellFormedItems] at h
    rcases List.mem_cons.1 mem with rfl | mem
    · exact h.1
    · exact ih h.2 mem

theorem WellFormedFields.of_mem {fields : Fields} (h : WellFormedFields fields) {key : String}
    {j : Json} (mem : (key, j) ∈ fields) : j.WellFormed := by
  induction fields with
  | nil => cases mem
  | cons first rest ih =>
    obtain ⟨name, value⟩ := first
    rw [WellFormedFields] at h
    rcases List.mem_cons.1 mem with same | mem
    · obtain ⟨-, rfl⟩ := Prod.mk.inj same
      exact h.1
    · exact ih h.2 mem

theorem sameFields_iff {fs gs : Fields} :
    sameFields fs gs = true ↔ ∀ key a, (key, a) ∈ fs →
      ∃ b, Table.get? gs key = some b ∧ same a b = true := by
  induction fs with
  | nil => simp [sameFields]
  | cons first rest ih =>
    obtain ⟨key, a⟩ := first
    rw [sameFields, Bool.and_eq_true, ih]
    constructor
    · rintro ⟨here, later⟩ name c mem
      rcases List.mem_cons.1 mem with same | mem
      · obtain ⟨rfl, rfl⟩ := Prod.mk.inj same
        cases found : Table.get? gs name with
        | none => rw [found] at here; cases here
        | some b => rw [found] at here; exact ⟨b, rfl, here⟩
      · exact later name c mem
    · intro all
      obtain ⟨b, found, here⟩ := all key a List.mem_cons_self
      rw [found]
      exact ⟨here, fun name c mem => all name c (List.mem_cons_of_mem _ mem)⟩

/-- Two objects of equally many entries have the same keys if the one has all keys of the other. -/
theorem keys_subset_of_sameFields {fs gs : Fields} (distinct : (Table.keys fs).Nodup)
    (count : fs.length = gs.length) (h : sameFields fs gs = true) :
    Table.keys gs ⊆ Table.keys fs := by
  have all : Table.keys fs ⊆ Table.keys gs := by
    intro key mem
    obtain ⟨⟨name, a⟩, mem', rfl⟩ := List.mem_map.1 mem
    obtain ⟨b, found, -⟩ := sameFields_iff.1 h name a mem'
    exact List.mem_map.2 ⟨(name, b), Table.mem_of_get? found, rfl⟩
  have few : (Table.keys gs).length ≤ (Table.keys fs).length := by
    simp only [Table.keys, List.length_map]
    omega
  exact ((List.subperm_of_subset distinct all).perm_of_length_le few).symm.subset

/-- The values of two objects that are the same are the same the other way round, if the values of
the one are. -/
private theorem sameFields_symm {fs gs : Fields} (hf : (object fs).WellFormed)
    (hg : (object gs).WellFormed) (symm : ∀ key a, (key, a) ∈ fs → ∀ b : Json, b.WellFormed →
      same a b = true → same b a = true)
    (count : fs.length = gs.length) (h : sameFields fs gs = true) : sameFields gs fs = true := by
  rw [WellFormed] at hf hg
  refine sameFields_iff.2 fun key b mem => ?_
  have inBoth : key ∈ Table.keys fs :=
    keys_subset_of_sameFields hf.1 count h (List.mem_map.2 ⟨(key, b), mem, rfl⟩)
  obtain ⟨⟨_, a⟩, mem', rfl⟩ := List.mem_map.1 inBoth
  obtain ⟨b', found, same⟩ := sameFields_iff.1 h _ a mem'
  obtain rfl : b = b' := by
    rw [Table.get?_of_mem hg.1 mem] at found
    exact Option.some.inj found
  exact ⟨a, Table.get?_of_mem hf.1 mem', symm _ a mem' b (hg.2.of_mem mem) same⟩

private theorem sameItems_symm {as bs : List Json} (hb : WellFormedItems bs)
    (symm : ∀ a ∈ as, ∀ b : Json, b.WellFormed → same a b = true → same b a = true)
    (h : sameItems as bs = true) : sameItems bs as = true := by
  induction as generalizing bs with
  | nil => cases bs <;> simp [sameItems] at h ⊢
  | cons a as ih =>
    cases bs with
    | nil => simp [sameItems] at h
    | cons b bs =>
      rw [sameItems, Bool.and_eq_true] at h ⊢
      rw [WellFormedItems] at hb
      exact ⟨symm a List.mem_cons_self b hb.1 h.1,
        ih hb.2 (fun a mem => symm a (List.mem_cons_of_mem _ mem)) h.2⟩

/-- Equality of well-formed values is symmetric. -/
theorem same_symm (a b : Json) (ha : a.WellFormed) (hb : b.WellFormed) (h : same a b = true) :
    same b a = true := by
  match a, ha, h with
  | null, _, h => cases b <;> simp [same] at h ⊢
  | bool x, ha, h =>
    cases b <;> simp only [same, beq_iff_eq, Bool.false_eq_true] at h ⊢
    exact h.symm
  | string x, ha, h =>
    cases b <;> simp only [same, beq_iff_eq, Bool.false_eq_true] at h ⊢
    exact h.symm
  | number x, ha, h =>
    cases b <;> simp only [same, Bool.false_eq_true] at h ⊢
    rwa [Number.same_comm]
  | array as, ha, h =>
    cases b <;> simp only [same, Bool.false_eq_true] at h ⊢
    rw [WellFormed] at ha hb
    exact sameItems_symm hb (fun a mem b hb => same_symm a b (ha.of_mem mem) hb) h
  | object fs, ha, h =>
    cases b <;> simp only [same, Bool.and_eq_true, beq_iff_eq, Bool.false_eq_true] at h ⊢
    have inside : WellFormedFields fs := by
      rw [WellFormed] at ha
      exact ha.2
    exact ⟨h.1.symm, sameFields_symm ha hb
      (fun key a mem b hb => same_symm a b (inside.of_mem mem) hb) h.1 h.2⟩
termination_by sizeOf a
decreasing_by
  · have smaller := List.sizeOf_lt_of_mem mem
    rw [array.sizeOf_spec]
    omega
  · have smaller := List.sizeOf_lt_of_mem mem
    rw [Prod.mk.sizeOf_spec] at smaller
    rw [object.sizeOf_spec]
    omega

end Json

end SchemaBridge
