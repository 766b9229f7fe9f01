import SchemaBridge.Compile.Assembly

/-!
# What layers write

Constraints and annotations are written into a schema as a list of keywords, each with its value if
there is one. So whatever is said of writing is said once, of any such list: the other keywords of
the schema stay, no keyword is lost, and a schema that gets no longer has got nothing.

## Main definitions

* `Table.writeAll` : the values that there are, put in one after the other.
* `Annotations.entries`, `Constraints.entries` : what annotations and constraints write.

## Main results

* `Table.writeAll_keeps` : what each entry keeps is kept.
* `Table.get?_writeAll_of_notMem` : other keys stay as they are.
* `Table.eq_none_of_writeAll` : a table that gets no longer by new keys gets nothing.
-/

namespace SchemaBridge

namespace Table

variable {α β : Type} [DecidableEq α] {t : Table α β} {entries : List (α × Option β)}

/-- Puts in the values that there are, one after the other. -/
def writeAll (t : Table α β) (entries : List (α × Option β)) : Table α β :=
  entries.foldl (fun t entry => putSome t entry.1 entry.2) t

/-- What holds of a table, and is kept by each entry that is put in, holds with all of them. -/
theorem writeAll_keeps {P : Table α β → Prop}
    (keeps : ∀ entry ∈ entries, ∀ v ∈ entry.2, ∀ t, P t → P (put t entry.1 v)) (h : P t) :
    P (writeAll t entries) := by
  induction entries generalizing t with
  | nil => exact h
  | cons first rest ih =>
    obtain ⟨here, later⟩ := List.forall_mem_cons.1 keeps
    refine ih later ?_
    obtain ⟨key, _ | value⟩ := first
    · exact h
    · exact here value rfl t h

theorem mem_of_mem_writeAll {entry : α × β} (h : entry ∈ writeAll t entries) :
    entry ∈ t ∨ entry.1 ∈ entries.map Prod.fst := by
  induction entries generalizing t with
  | nil => exact .inl h
  | cons first rest ih =>
    rcases ih h with before | later
    · obtain ⟨key, _ | value⟩ := first
      · exact .inl before
      · refine (mem_of_mem_put before).imp_right ?_
        rintro rfl
        exact List.mem_cons_self
    · exact .inr (List.mem_cons_of_mem _ later)

/-- The entries of other keys stay. -/
theorem mem_writeAll {entry : α × β} (h : entry ∈ t) (other : entry.1 ∉ entries.map Prod.fst) :
    entry ∈ writeAll t entries := by
  induction entries generalizing t with
  | nil => exact h
  | cons first rest ih =>
    obtain ⟨here, later⟩ := not_or.1 (mt List.mem_cons.2 other)
    refine ih ?_ later
    obtain ⟨key, _ | value⟩ := first
    · exact h
    · exact mem_put_of_ne h here

theorem get?_writeAll_of_notMem (t : Table α β) {k : α} (other : k ∉ entries.map Prod.fst) :
    get? (writeAll t entries) k = get? t k := by
  induction entries generalizing t with
  | nil => rfl
  | cons first rest ih =>
    obtain ⟨here, later⟩ := not_or.1 (mt List.mem_cons.2 other)
    exact (ih (putSome t first.1 first.2) later).trans
      ((get?_putSome ..).trans (if_neg (Ne.symm here)))

/-- A key that is written once has the new value, or else the one that was there. -/
theorem get?_writeAll_of_mem (distinct : (entries.map Prod.fst).Nodup) {k : α} {v : Option β}
    (mem : (k, v) ∈ entries) (t : Table α β) : get? (writeAll t entries) k = v.or (get? t k) := by
  induction entries generalizing t with
  | nil => cases mem
  | cons first rest ih =>
    rw [List.map_cons, List.nodup_cons] at distinct
    rcases List.mem_cons.1 mem with rfl | later
    · exact (get?_writeAll_of_notMem (putSome t k v) distinct.1).trans
        ((get?_putSome ..).trans (if_pos rfl))
    · have isKey : k ∈ rest.map Prod.fst := List.mem_map.2 ⟨_, later, rfl⟩
      have other : first.1 ≠ k := fun same => distinct.1 (same ▸ isKey)
      refine (ih distinct.2 later (putSome t first.1 first.2)).trans ?_
      rw [get?_putSome, if_neg other]

theorem length_le_put (t : Table α β) (k : α) (v : β) : t.length ≤ (put t k v).length := by
  have keys : (Table.keys t).length ≤ (Table.keys (put t k v)).length := by
    rw [keys_put]
    split
    · exact Nat.le_refl _
    · rw [List.length_append]
      exact Nat.le_add_right ..
  rwa [Table.keys, Table.keys, List.length_map, List.length_map] at keys

theorem length_le_writeAll (t : Table α β) (entries : List (α × Option β)) :
    t.length ≤ (writeAll t entries).length := by
  induction entries generalizing t with
  | nil => exact Nat.le_refl _
  | cons first rest ih =>
    obtain ⟨key, _ | value⟩ := first
    · exact ih t
    · exact Nat.le_trans (length_le_put t key value) (ih _)

/-- Where new keys are written and the table gets no longer there is nothing to write. -/
theorem eq_none_of_writeAll (new : ∀ entry ∈ entries, entry.1 ∉ keys t)
    (short : (writeAll t entries).length ≤ t.length) : ∀ entry ∈ entries, entry.2 = none := by
  induction entries with
  | nil => exact nofun
  | cons first rest ih =>
    obtain ⟨newKey, newRest⟩ := List.forall_mem_cons.1 new
    obtain ⟨key, _ | value⟩ := first
    · exact List.forall_mem_cons.2 ⟨rfl, ih newRest short⟩
    · have longer : (put t key value).length = t.length + 1 := by
        rw [put_of_notMem value newKey, List.length_append, List.length_singleton]
      have kept : (put t key value).length ≤ t.length :=
        Nat.le_trans (length_le_writeAll (put t key value) rest) short
      rw [longer] at kept
      exact absurd kept (Nat.not_succ_le_self _)

theorem writeAll_of_eq_none (none : ∀ entry ∈ entries, entry.2 = none) (t : Table α β) :
    writeAll t entries = t := by
  induction entries with
  | nil => rfl
  | cons first rest ih =>
    obtain ⟨here, later⟩ := List.forall_mem_cons.1 none
    rw [writeAll, List.foldl_cons, here]
    exact ih later

end Table

namespace Annotations

/-- The keywords of annotations. -/
def keywords : List String := ["title", "description", "default", "examples", "deprecated"]

/-- What annotations write. -/
def entries (a : Annotations) : List (String × Option Json) :=
  [("title", a.title.map .string), ("description", a.description.map .string),
    ("default", a.default),
    ("examples", if a.examples.isEmpty then none else some (.array a.examples)),
    ("deprecated", if a.deprecated then some (.bool true) else none)]

theorem write_eq (a : Annotations) (schema : Json.Fields) :
    a.write schema = Table.writeAll schema a.entries := rfl

theorem keys_entries (a : Annotations) : a.entries.map Prod.fst = keywords := rfl

/-- What every annotation keeps that is put in is kept by all of them. -/
theorem write_keeps {P : Json.Fields → Prop}
    (keeps : ∀ keyword ∈ keywords, ∀ value schema, P schema → P (Table.put schema keyword value))
    (a : Annotations) {schema : Json.Fields} (h : P schema) : P (a.write schema) := by
  rw [write_eq]
  refine Table.writeAll_keeps (fun entry mem value _ => keeps entry.1 ?_ value) h
  exact a.keys_entries ▸ List.mem_map_of_mem mem

/-- Where nothing is said nothing is written. -/
theorem write_of_isEmpty {a : Annotations} (h : a.isEmpty = true) (schema : Json.Fields) :
    a.write schema = schema := by
  simp only [isEmpty, Bool.and_eq_true, Option.isNone_iff_eq_none, Bool.not_eq_true'] at h
  obtain ⟨⟨⟨⟨title, description⟩, default⟩, examples⟩, deprecated⟩ := h
  rw [write_eq]
  refine Table.writeAll_of_eq_none ?_ schema
  simp [entries, title, description, default, examples, deprecated]

/-- Annotations leave every other keyword alone. -/
theorem get?_write (a : Annotations) (schema : Json.Fields) {keyword : String}
    (other : keyword ∉ keywords) :
    Table.get? (a.write schema) keyword = Table.get? schema keyword := by
  rw [write_eq]
  exact Table.get?_writeAll_of_notMem schema (a.keys_entries ▸ other)

/-- Where an annotation is written it has the new value, or else the one that was there. -/
theorem get?_write_of_mem {a : Annotations} {keyword : String} {value : Option Json}
    (mem : (keyword, value) ∈ a.entries) (schema : Json.Fields) :
    Table.get? (a.write schema) keyword = value.or (Table.get? schema keyword) := by
  have distinct : (a.entries.map Prod.fst).Nodup := (by decide : keywords.Nodup)
  rw [write_eq]
  exact Table.get?_writeAll_of_mem distinct mem schema

theorem mem_of_mem_write {a : Annotations} {schema : Json.Fields} {entry : String × Json}
    (h : entry ∈ a.write schema) : entry ∈ schema ∨ entry.1 ∈ keywords := by
  rw [write_eq] at h
  exact Table.mem_of_mem_writeAll h

theorem mem_write (a : Annotations) {schema : Json.Fields} {entry : String × Json}
    (h : entry ∈ schema) (other : entry.1 ∉ keywords) : entry ∈ a.write schema := by
  rw [write_eq]
  exact Table.mem_writeAll h other

end Annotations

namespace Constraints

/-- What constraints write, under the keywords of a family. -/
def entries (c : Constraints) (family : BoundsFamily) : List (String × Option Json) :=
  [(family.keywords.1, c.min.map Assembly.boundNumber),
    (family.keywords.2, c.max.map Assembly.boundNumber),
    (family.countKeywords.1, c.minLength.map .ofNat),
    (family.countKeywords.2, c.maxLength.map .ofNat),
    ("pattern", c.pattern.map .string), ("format", c.format.map .string)]

/-- The keywords under which constraints are written, in whatever family. -/
def keywords : List String :=
  ["minimum", "maximum", "minLength", "maxLength", "minItems", "maxItems", "minProperties",
    "maxProperties", "pattern", "format"]

theorem keys_entries_subset (c : Constraints) (family : BoundsFamily) :
    (c.entries family).map Prod.fst ⊆ keywords := by
  cases family <;> simp [entries, keywords, BoundsFamily.keywords, BoundsFamily.countKeywords]

end Constraints

namespace Assembly

theorem writeConstraints_eq (c : Constraints) (family : BoundsFamily) (schema : Json.Fields) :
    writeConstraints c family schema = Table.writeAll schema (c.entries family) := rfl

/-- What every constraint keeps that is put in, under whatever keyword, is kept by all of them. -/
theorem writeConstraints_keeps {P : Json.Fields → Prop}
    (keeps : ∀ keyword ∈ Constraints.keywords, ∀ value schema, P schema →
      P (Table.put schema keyword value))
    (c : Constraints) (family : BoundsFamily) {schema : Json.Fields} (h : P schema) :
    P (writeConstraints c family schema) := by
  rw [writeConstraints_eq]
  refine Table.writeAll_keeps (fun entry mem value _ => keeps entry.1 ?_ value) h
  exact c.keys_entries_subset family (List.mem_map_of_mem mem)

/-- Constraints leave every other keyword alone. -/
theorem get?_writeConstraints_of_notMem (c : Constraints) (family : BoundsFamily)
    (schema : Json.Fields) {keyword : String} (other : keyword ∉ Constraints.keywords) :
    Table.get? (writeConstraints c family schema) keyword = Table.get? schema keyword := by
  rw [writeConstraints_eq]
  exact Table.get?_writeAll_of_notMem schema fun mem => other (c.keys_entries_subset family mem)

theorem get?_pattern_writeConstraints (c : Constraints) (family : BoundsFamily)
    (schema : Json.Fields) : Table.get? (writeConstraints c family schema) "pattern" =
      (c.pattern.map .string).or (Table.get? schema "pattern") := by
  cases family <;>
    simp [writeConstraints, Table.get?_putSome, BoundsFamily.keywords, BoundsFamily.countKeywords]

theorem get?_format_writeConstraints (c : Constraints) (family : BoundsFamily)
    (schema : Json.Fields) : Table.get? (writeConstraints c family schema) "format" =
      (c.format.map .string).or (Table.get? schema "format") := by
  cases family <;>
    simp [writeConstraints, Table.get?_putSome, BoundsFamily.keywords, BoundsFamily.countKeywords]

/-- A null branch leaves no other keyword than `anyOf`. -/
theorem get?_orNull_of_ne (schema : Json.Fields) {keyword : String} (other : keyword ≠ "anyOf") :
    Table.get? (orNull schema) keyword = none := by
  unfold orNull
  split <;> exact (Table.get?_cons ..).trans (if_neg (Ne.symm other))

/-- Constraints that add no keyword to a reference add none to any schema. -/
theorem writeConstraints_eq_id {c : Constraints} {family : BoundsFamily} {value : Json}
    (short : (writeConstraints c family [("$ref", value)]).length ≤ 1) :
    writeConstraints c family = id := by
  have new : ∀ entry ∈ c.entries family, entry.1 ∉ Table.keys [("$ref", value)] := by
    intro entry mem isReference
    have known := c.keys_entries_subset family (List.mem_map_of_mem mem)
    rw [List.mem_singleton.1 isReference] at known
    exact absurd known (by decide : "$ref" ∉ Constraints.keywords)
  funext schema
  exact Table.writeAll_of_eq_none (Table.eq_none_of_writeAll new short) schema

end Assembly

end SchemaBridge
