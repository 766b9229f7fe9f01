import Mathlib.Data.List.Forall2
import Mathlib.Data.List.Nodup
import SchemaBridge.Compile.Structure

/-!
# Last entries

Entries that are put into a table one after the other may repeat a key. The last entry of a key is
the one that counts in the end: it is the one that the table answers.

## Main definitions

* `Table.lastEntries` : the entries whose key does not come again.

## Main results

* `Table.get?_ofList_iff` : a table that is built from entries answers their last ones.
* `Table.exists_lastEntry`, `Table.nodup_keys_lastEntries` : every key has exactly one last entry.
* `Structure.required_eq` : the keys that an object lists as required.
-/

namespace SchemaBridge

namespace Table

variable {α β γ : Type} [DecidableEq α]

/-- The entries whose key does not come again after them, in order. -/
def lastEntries : List (α × β) → List (α × β)
  | [] => []
  | entry :: rest => if entry.1 ∈ keys rest then lastEntries rest else entry :: lastEntries rest

theorem lastEntries_sublist (entries : List (α × β)) : (lastEntries entries).Sublist entries := by
  induction entries with
  | nil => exact .slnil
  | cons entry rest ih =>
    rw [lastEntries]
    split
    · exact ih.cons entry
    · exact ih.cons_cons entry

/-- Every key has a last entry. -/
theorem exists_lastEntry {entries : List (α × β)} {key : α} (h : key ∈ keys entries) :
    ∃ value, (key, value) ∈ lastEntries entries := by
  induction entries with
  | nil => cases h
  | cons entry rest ih =>
    rw [lastEntries]
    by_cases again : key ∈ keys rest
    · obtain ⟨value, mem⟩ := ih again
      refine ⟨value, ?_⟩
      split
      · exact mem
      · exact List.mem_cons_of_mem _ mem
    · obtain rfl : key = entry.1 := (List.mem_cons.1 h).resolve_right again
      rw [if_neg again]
      exact ⟨entry.2, List.mem_cons_self⟩

/-- No key has two last entries. -/
theorem nodup_keys_lastEntries (entries : List (α × β)) : (keys (lastEntries entries)).Nodup := by
  induction entries with
  | nil => exact List.nodup_nil
  | cons entry rest ih =>
    rw [lastEntries]
    split
    · exact ih
    · rename_i new
      refine List.nodup_cons.2 ⟨fun mem => new ?_, ih⟩
      exact ((lastEntries_sublist rest).map Prod.fst).subset mem

/-- Entries of which none repeats a key are last entries. -/
theorem lastEntries_of_nodup {entries : List (α × β)} (distinct : (keys entries).Nodup) :
    lastEntries entries = entries := by
  induction entries with
  | nil => rfl
  | cons entry rest ih =>
    obtain ⟨new, distinct⟩ := List.nodup_cons.1 distinct
    have isLast : entry.1 ∉ keys rest := new
    rw [lastEntries, if_neg isLast, ih distinct]

/-- Entries that are related one by one have last entries that are related one by one. -/
theorem lastEntries_forall₂ {related : β → γ → Prop} {entries : List (α × β)}
    {others : List (α × γ)}
    (h : List.Forall₂ (fun a b => a.1 = b.1 ∧ related a.2 b.2) entries others) :
    List.Forall₂ (fun a b => a.1 = b.1 ∧ related a.2 b.2) (lastEntries entries)
      (lastEntries others) := by
  have sameKeys {entries : List (α × β)} {others : List (α × γ)}
      (h : List.Forall₂ (fun a b => a.1 = b.1 ∧ related a.2 b.2) entries others) :
      keys entries = keys others := by
    induction h with
    | nil => rfl
    | cons first _ ih => exact congrArg₂ List.cons first.1 ih
  induction h with
  | nil => exact .nil
  | cons first rest ih =>
    rw [lastEntries, lastEntries, ← first.1, ← sameKeys rest]
    split
    · exact ih
    · exact .cons first ih

/-- Putting entries in repeats no key. -/
theorem nodup_keys_foldl_put (entries : List (α × β)) {t : Table α β} (h : (keys t).Nodup) :
    (keys (entries.foldl (fun t entry => put t entry.1 entry.2) t)).Nodup := by
  induction entries generalizing t with
  | nil => exact h
  | cons entry rest ih => exact ih (nodup_keys_put t entry.1 entry.2 h)

/-- A key that is put in again replaces what was there; the other keys keep what they have. -/
theorem get?_foldl_put (entries : List (α × β)) (t : Table α β) (key : α) :
    get? (entries.foldl (fun t entry => put t entry.1 entry.2) t) key =
      (get? (lastEntries entries) key).or (get? t key) := by
  induction entries generalizing t with
  | nil => rfl
  | cons entry rest ih =>
    obtain ⟨name, value⟩ := entry
    rw [List.foldl_cons, ih, get?_put, lastEntries]
    by_cases same : name = key
    · subst same
      rw [if_pos rfl]
      split
      next again =>
        obtain ⟨last, mem⟩ := exists_lastEntry again
        rw [get?_of_mem (nodup_keys_lastEntries rest) mem]
        rfl
      next new =>
        have none : get? (lastEntries rest) name = none :=
          (get?_eq_none_iff ..).2 fun mem =>
            new (((lastEntries_sublist rest).map Prod.fst).subset mem)
        rw [none, get?_cons, if_pos rfl]
        rfl
    · rw [if_neg same]
      split
      · rfl
      · rw [get?_cons, if_neg same]

/-- A table that is built from entries answers their last ones. -/
theorem get?_ofList_iff {entries : List (α × β)} {key : α} {value : β} :
    get? (ofList entries) key = some value ↔ (key, value) ∈ lastEntries entries := by
  rw [ofList, get?_foldl_put, get?_nil, Option.or_none]
  exact ⟨mem_of_get?, get?_of_mem (nodup_keys_lastEntries entries)⟩

theorem lastEntries_map (f : β → γ) (entries : List (α × β)) :
    lastEntries (entries.map fun entry => (entry.1, f entry.2)) =
      (lastEntries entries).map fun entry => (entry.1, f entry.2) := by
  induction entries with
  | nil => rfl
  | cons entry rest ih =>
    have sameKeys : keys (rest.map fun entry => (entry.1, f entry.2)) = keys rest := by
      rw [keys, List.map_map]
      rfl
    rw [List.map_cons, lastEntries, lastEntries, sameKeys, ih]
    split <;> rfl

end Table

namespace Structure

private theorem foldl_required (entries : List (String × NodeSchema)) (keys : List String) :
    entries.foldl
        (fun keys entry =>
          keys.filter (· ≠ entry.1) ++ if entry.2.isOptional then [] else [entry.1]) keys =
      keys.filter (· ∉ Table.keys entries) ++
        Table.keys ((Table.lastEntries entries).filter fun entry => !entry.2.isOptional) := by
  induction entries generalizing keys with
  | nil => simp [Table.lastEntries]
  | cons entry rest ih =>
    obtain ⟨key, c⟩ := entry
    have kept : (keys.filter (· ≠ key)).filter (· ∉ Table.keys rest) =
        keys.filter (· ∉ Table.keys ((key, c) :: rest)) := by
      rw [List.filter_filter]
      refine List.filter_congr fun other _ => ?_
      simp [Bool.and_comm]
    rw [List.foldl_cons, ih, List.filter_append, kept, List.append_assoc, Table.lastEntries]
    refine congrArg _ ?_
    by_cases again : key ∈ Table.keys rest <;> cases optional : c.isOptional <;>
      simp [again, optional]

/-- The keys that an object lists as required: those whose last entry is not optional, in the order
of the last entries. -/
theorem required_eq (entries : List (String × NodeSchema)) :
    required entries =
      Table.keys ((Table.lastEntries entries).filter fun entry => !entry.2.isOptional) := by
  rw [required, foldl_required]
  rfl

end Structure

end SchemaBridge
