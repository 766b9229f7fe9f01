/-!
# Tables in insertion order

A finite table is the list of its entries, in the order in which their keys were first put in.
Putting a key that is present replaces its value where it stands; a new key goes to the end. When an
entry is deleted from an object, the last entry takes its place.
Objects of a JSON document are such tables, and so are the books that a compilation keeps.

## Main definitions

* `Table` : a list of entries.
* `Table.get?`, `Table.put`, `Table.swapRemove` : looking up, replacing or appending, deleting.
* `Table.putSome` : putting in, if there is a value.

## Main results

* `Table.get?_put` : what a table answers after a key has been put in.
* `Table.keys_put` : putting a key in never reorders the keys that are there.
* `Table.get?_swapRemove` : what a table answers after a key has been deleted.
* `Table.get?_of_mem` : with distinct keys, every entry is found under its key.
-/

namespace SchemaBridge

/-- A finite table: its entries in the order in which their keys were first put in. -/
abbrev Table (α β : Type) := List (α × β)

namespace Table

variable {α β : Type}

/-- The keys, in order. -/
def keys (t : Table α β) : List α := t.map Prod.fst

@[simp] theorem keys_nil : keys ([] : Table α β) = [] := rfl

@[simp] theorem keys_cons (a : α) (b : β) (rest : Table α β) :
    keys ((a, b) :: rest) = a :: keys rest := rfl

variable [DecidableEq α]

/-- The value of a key: that of its first entry. -/
def get? : Table α β → α → Option β
  | [], _ => none
  | (a, b) :: rest, k => if a = k then some b else get? rest k

/-- The table has an entry for the key. -/
def has (t : Table α β) (k : α) : Bool := (get? t k).isSome

/-- Replaces the value of a key where it stands, or appends a new entry. -/
def put : Table α β → α → β → Table α β
  | [], k, v => [(k, v)]
  | (a, b) :: rest, k, v => if a = k then (a, v) :: rest else (a, b) :: put rest k v

/-- Puts a key in, if there is a value for it. -/
def putSome (t : Table α β) (k : α) (v : Option β) : Table α β := v.elim t (put t k)

/-- Drops the entries of a key; the others keep their order. -/
def remove : Table α β → α → Table α β
  | [], _ => []
  | (a, b) :: rest, k => if a = k then remove rest k else (a, b) :: remove rest k

/-- Brings the key of the last entry to the front, with its value. -/
def lastFirst (t : Table α β) : Table α β :=
  match t.getLast? with
  | some (k, v) => (k, (get? t k).getD v) :: remove t k
  | none => []

/-- Deletes a key. The last entry takes its place, and the others keep their order. -/
def swapRemove : Table α β → α → Table α β
  | [], _ => []
  | (a, b) :: rest, k =>
    if a = k then lastFirst (remove rest k) else (a, b) :: swapRemove rest k

/-- A table built by putting entries in one after the other. -/
def ofList (entries : List (α × β)) : Table α β := entries.foldl (fun t e => put t e.1 e.2) []

/-! ### What the operations answer -/

@[simp] theorem get?_nil (k : α) : get? ([] : Table α β) k = none := rfl

theorem get?_cons (a : α) (b : β) (rest : Table α β) (k : α) :
    get? ((a, b) :: rest) k = if a = k then some b else get? rest k := rfl

theorem get?_put (t : Table α β) (k k' : α) (v : β) :
    get? (put t k v) k' = if k = k' then some v else get? t k' := by
  induction t with
  | nil => rfl
  | cons e rest ih =>
    obtain ⟨a, b⟩ := e
    by_cases h : a = k
    · subst h
      by_cases h' : a = k' <;> simp [put, get?, h']
    · by_cases h' : a = k'
      · subst h'
        have : ¬ k = a := fun e => h e.symm
        simp [put, get?, h, this]
      · simp [put, get?, h, h', ih]

@[simp] theorem get?_put_self (t : Table α β) (k : α) (v : β) : get? (put t k v) k = some v := by
  simp [get?_put]

theorem get?_put_of_ne (t : Table α β) {k k' : α} (v : β) (h : k ≠ k') :
    get? (put t k v) k' = get? t k' := by
  simp [get?_put, h]

theorem get?_putSome (t : Table α β) (k k' : α) (v : Option β) :
    get? (putSome t k v) k' = if k = k' then v.or (get? t k') else get? t k' := by
  cases v with
  | none => simp [putSome]
  | some v => simp [putSome, get?_put]

theorem get?_remove (t : Table α β) (k k' : α) :
    get? (remove t k) k' = if k' = k then none else get? t k' := by
  induction t with
  | nil => simp [remove, get?]
  | cons e rest ih =>
    obtain ⟨a, b⟩ := e
    by_cases h : a = k
    · subst h
      rw [remove, if_pos rfl, ih]
      by_cases h' : k' = a
      · simp [h']
      · have h'' : ¬ a = k' := fun e => h' e.symm
        simp [get?, h', h'']
    · rw [remove, if_neg h, get?, ih, get?]
      by_cases h' : a = k'
      · subst h'; simp [h]
      · simp [h']

theorem get?_eq_none_iff (t : Table α β) (k : α) : get? t k = none ↔ k ∉ keys t := by
  induction t with
  | nil => simp
  | cons e rest ih =>
    obtain ⟨a, b⟩ := e
    by_cases h : a = k
    · subst h; simp [get?]
    · have : ¬ k = a := fun e => h e.symm
      simp [get?, h, this, ih]

theorem get?_lastFirst (t : Table α β) (k : α) : get? (lastFirst t) k = get? t k := by
  unfold lastFirst
  split
  next last v isLast =>
    obtain ⟨w, found⟩ : ∃ w, get? t last = some w := by
      rw [← Option.isSome_iff_exists, Option.isSome_iff_ne_none]
      exact fun none => (get?_eq_none_iff t last).1 none
        (List.mem_map_of_mem (List.mem_of_mem_getLast? isLast))
    rw [get?_cons, get?_remove, found]
    by_cases same : last = k
    · rw [if_pos same, ← same, found]
      rfl
    · rw [if_neg same, if_neg (Ne.symm same)]
  next none => rw [List.getLast?_eq_none_iff.1 none]

theorem get?_swapRemove (t : Table α β) (k k' : α) :
    get? (swapRemove t k) k' = if k' = k then none else get? t k' := by
  induction t with
  | nil => simp [swapRemove]
  | cons e rest ih =>
    obtain ⟨a, b⟩ := e
    rw [swapRemove, get?_cons]
    by_cases first : a = k
    · subst first
      rw [if_pos rfl, get?_lastFirst, get?_remove]
      by_cases same : k' = a
      · rw [if_pos same, if_pos same]
      · rw [if_neg same, if_neg same, if_neg (Ne.symm same)]
    · rw [if_neg first, get?_cons, ih]
      by_cases same : k' = k
      · subst same
        rw [if_pos rfl, if_pos rfl, if_neg first]
      · rw [if_neg same, if_neg same]

/-- The last entry takes the place of the one that is deleted. -/
example : swapRemove [("a", 1), ("b", 2), ("c", 3), ("d", 4)] "b" =
    [("a", 1), ("d", 4), ("c", 3)] := by decide

theorem has_iff_mem_keys (t : Table α β) (k : α) : has t k = true ↔ k ∈ keys t := by
  have h := get?_eq_none_iff t k
  rw [has, Option.isSome_iff_ne_none, ne_eq, h, Decidable.not_not]

theorem keys_put (t : Table α β) (k : α) (v : β) :
    keys (put t k v) = if k ∈ keys t then keys t else keys t ++ [k] := by
  induction t with
  | nil => simp [put]
  | cons e rest ih =>
    obtain ⟨a, b⟩ := e
    by_cases h : a = k
    · subst h; simp [put]
    · have h' : ¬ k = a := fun e => h e.symm
      by_cases hk : k ∈ keys rest <;> simp [put, h, h', ih, hk]

theorem get?_append (t u : Table α β) (k : α) : get? (t ++ u) k = (get? t k).or (get? u k) := by
  induction t with
  | nil => rfl
  | cons e rest ih =>
    obtain ⟨a, b⟩ := e
    rw [List.cons_append, get?_cons, get?_cons, ih]
    split <;> rfl

theorem get?_map {γ : Type} (f : β → γ) (t : Table α β) (k : α) :
    get? (t.map fun e => (e.1, f e.2)) k = (get? t k).map f := by
  induction t with
  | nil => rfl
  | cons e rest ih =>
    obtain ⟨a, b⟩ := e
    rw [List.map_cons, get?_cons, get?_cons, ih]
    split <;> rfl

theorem put_of_notMem {t : Table α β} {k : α} (v : β) (h : k ∉ keys t) :
    put t k v = t ++ [(k, v)] := by
  induction t with
  | nil => rfl
  | cons e rest ih =>
    obtain ⟨a, b⟩ := e
    rw [keys_cons, List.mem_cons, not_or] at h
    rw [put, if_neg fun same => h.1 same.symm, ih h.2, List.cons_append]

/-- Entries with new keys are put at the end, as they are. -/
theorem foldl_put_of_nodup {entries t : Table α β} (h : (keys (t ++ entries)).Nodup) :
    entries.foldl (fun t entry => put t entry.1 entry.2) t = t ++ entries := by
  induction entries generalizing t with
  | nil => exact (List.append_nil t).symm
  | cons entry rest ih =>
    have new : entry.1 ∉ keys t := by
      rw [keys, List.map_append, List.map_cons] at h
      exact fun mem => (List.nodup_append.1 h).2.2 _ mem _ List.mem_cons_self rfl
    rw [List.foldl_cons, put_of_notMem _ new, ih, List.append_assoc, List.singleton_append]
    rwa [List.append_assoc, List.singleton_append]

theorem nodup_keys_put (t : Table α β) (k : α) (v : β) (h : (keys t).Nodup) :
    (keys (put t k v)).Nodup := by
  rw [keys_put]
  split
  · exact h
  · rename_i hk
    refine List.nodup_append.2 ⟨h, by simp, ?_⟩
    intro a ha b hb
    simp only [List.mem_singleton] at hb
    subst hb
    exact fun e => hk (e ▸ ha)

theorem mem_of_mem_put {t : Table α β} {k : α} {v : β} {entry : α × β} (h : entry ∈ put t k v) :
    entry ∈ t ∨ entry = (k, v) := by
  induction t with
  | nil => exact .inr (List.mem_singleton.1 h)
  | cons first rest ih =>
    rw [put] at h
    split at h
    next same =>
      rcases List.mem_cons.1 h with rfl | h
      · exact .inr (by rw [same])
      · exact .inl (List.mem_cons_of_mem _ h)
    next =>
      rcases List.mem_cons.1 h with rfl | h
      · exact .inl List.mem_cons_self
      · exact (ih h).imp_left (List.mem_cons_of_mem _)

/-- The entries of other keys stay. -/
theorem mem_put_of_ne {t : Table α β} {k : α} {v : β} {entry : α × β} (h : entry ∈ t)
    (other : entry.1 ≠ k) : entry ∈ put t k v := by
  induction t with
  | nil => cases h
  | cons first rest ih =>
    rw [put]
    split
    next same =>
      rcases List.mem_cons.1 h with rfl | h
      · exact absurd same other
      · exact List.mem_cons_of_mem _ h
    next =>
      rcases List.mem_cons.1 h with rfl | h
      · exact List.mem_cons_self
      · exact List.mem_cons_of_mem _ (ih h)

/-- Putting in what is there already changes nothing. -/
theorem put_of_get? {t : Table α β} {k : α} {v : β} (h : get? t k = some v) : put t k v = t := by
  induction t with
  | nil => cases h
  | cons first rest ih =>
    obtain ⟨a, b⟩ := first
    rw [get?_cons] at h
    rw [put]
    split at h
    next same =>
      obtain rfl := Option.some.inj h
      rw [if_pos same]
    next other => rw [if_neg other, ih h]

theorem mem_of_mem_foldl_put {entries : List (α × β)} {t : Table α β} {entry : α × β}
    (h : entry ∈ entries.foldl (fun t e => put t e.1 e.2) t) : entry ∈ t ∨ entry ∈ entries := by
  induction entries generalizing t with
  | nil => exact .inl h
  | cons first rest ih =>
    rcases ih h with before | later
    · refine (mem_of_mem_put before).imp_right ?_
      rintro rfl
      exact List.mem_cons_self
    · exact .inr (List.mem_cons_of_mem _ later)

theorem mem_of_mem_ofList {entries : List (α × β)} {entry : α × β} (h : entry ∈ ofList entries) :
    entry ∈ entries :=
  (mem_of_mem_foldl_put h).resolve_left List.not_mem_nil

theorem get?_of_mem {t : Table α β} (h : (keys t).Nodup) {k : α} {v : β} (hm : (k, v) ∈ t) :
    get? t k = some v := by
  induction t with
  | nil => cases hm
  | cons e rest ih =>
    obtain ⟨a, b⟩ := e
    rw [keys_cons, List.nodup_cons] at h
    rcases List.mem_cons.1 hm with he | he
    · cases he; simp [get?]
    · have : a ≠ k := fun e => h.1 (e ▸ List.mem_map.2 ⟨_, he, rfl⟩)
      rw [get?, if_neg this]
      exact ih h.2 he

theorem mem_of_get? {t : Table α β} {k : α} {v : β} (h : get? t k = some v) : (k, v) ∈ t := by
  induction t with
  | nil => simp at h
  | cons e rest ih =>
    obtain ⟨a, b⟩ := e
    by_cases ha : a = k
    · subst ha
      simp only [get?, if_true, Option.some.injEq] at h
      simp [h]
    · simp only [get?, ha, if_false] at h
      exact List.mem_cons_of_mem _ (ih h)

end Table

end SchemaBridge
