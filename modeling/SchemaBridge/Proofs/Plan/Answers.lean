import SchemaBridge.Proofs.Draft07.Citations
import SchemaBridge.Proofs.Plan.Parts

/-!
# What becomes of the answers for parts

A structure is put together from the answers for its parts, and what such an answer cites is cited
by the structure too. There are two exceptions: a schema of keys that restricts no keys is left out
of a record or a map, and of the entries of an object with one key only the last is kept.

## Main definitions

* `Plan.Ran` : the run of a plan to a value, in which a part is compiled.
* `Structure.Drops` : a structure has no use for the answer for a part.

## Main results

* `Plan.Ran.bind`, `Plan.Ran.parts`, `Plan.Ran.entries` : where in a plan a part is compiled, and
  what becomes of its answer.
* `Structure.cites_of_ran` : a structure cites what the answers for its parts cite, unless it drops
  them.
-/

namespace SchemaBridge

open Draft07

variable {π α β : Type} {child : Node π → CompileM NodeSchema}

namespace Structure

open Plan

/-- What a plan of two steps comes to, step by step. -/
theorem exists_of_carryOut_bind {plan : Plan π α} {after : α → Plan π β} {s t : Ledger} {b : β}
    (h : carryOut child (plan >>= after) s = (.ok b, t)) :
    ∃ a u, carryOut child plan s = (.ok a, u) ∧ carryOut child (after a) u = (.ok b, t) := by
  change carryOut child (plan.andThen after) s = _ at h
  induction plan generalizing s with
  | done value => exact ⟨value, s, rfl, h⟩
  | ask answer next ih =>
    rcases given : answer s.supply with ⟨error | value, supply⟩
    · rw [Plan.andThen, carryOut_ask_of_error child _ given] at h
      cases h
    · rw [Plan.andThen, carryOut_ask_of_ok child _ given] at h
      rw [carryOut_ask_of_ok child next given]
      exact ih value h
  | compile part next ih => exact ih _ h

end Structure

namespace Plan

open Structure

/-- The run of a plan comes to a value, and compiles a part when the books are `u`. -/
structure Ran (child : Node π → CompileM NodeSchema) (plan : Plan π α) (s : Ledger) (part : Node π)
    (u : Ledger) (value : α) (t : Ledger) : Prop where
  visits : Visits child plan s part u
  run : carryOut child plan s = (.ok value, t)

variable {s t u : Ledger} {node inner : Node π}

theorem not_ran_pure {a value : α} : ¬ Ran child (pure a : Plan π α) s inner u value t := nofun

theorem Ran.bind {plan : Plan π α} {after : α → Plan π β} {b : β}
    (h : Ran child (plan >>= after) s inner u b t) :
    (∃ a v, Ran child plan s inner u a v ∧ carryOut child (after a) v = (.ok b, t)) ∨
      ∃ a v, carryOut child plan s = (.ok a, v) ∧ Ran child (after a) v inner u b t := by
  obtain ⟨visits, run⟩ := h
  obtain ⟨a, v, first, second⟩ := exists_of_carryOut_bind run
  suffices both : Visits child plan s inner u ∨ Visits child (after a) v inner u from
    both.imp (fun visits => ⟨a, v, ⟨visits, first⟩, second⟩) fun visits =>
      ⟨a, v, first, visits, second⟩
  change Visits child (plan.andThen after) s inner u at visits
  clear run second
  induction plan generalizing s with
  | done value =>
    obtain ⟨same, rfl⟩ := Prod.mk.inj first
    obtain rfl := Except.ok.inj same
    exact .inr visits
  | ask answer next ih =>
    obtain _ | _ | ⟨gives, rest⟩ := visits
    rw [carryOut_ask_of_ok child next gives] at first
    exact (ih _ first rest).imp_left (.ask gives)
  | compile other next ih =>
    obtain _ | rest | _ := visits
    · exact .inl .here
    · exact (ih _ first rest).imp_left .later

/-- A question compiles nothing, so the part is compiled after it. -/
theorem Ran.question {answer : Answer α} {after : α → Plan π β} {b : β}
    (h : Ran child (Plan.question answer >>= after) s inner u b t) :
    ∃ given supply, answer s.supply = (.ok given, supply) ∧
      Ran child (after given) { s with supply } inner u b t := by
  rcases given : answer s.supply with ⟨error | value, supply⟩
  · have fails := (carryOut_ask_of_error child after given).symm.trans h.run
    cases fails
  · refine ⟨value, supply, rfl, ?_, (carryOut_ask_of_ok child after given).symm.trans h.run⟩
    obtain _ | _ | ⟨gives, rest⟩ := h.visits
    obtain ⟨same, rfl⟩ := Prod.mk.inj (given.symm.trans gives)
    obtain rfl := Except.ok.inj same
    exact rest

/-- If nothing but a value comes after a plan, the plan compiles the part. -/
theorem Ran.of_pure {plan : Plan π α} {f : α → β} {b : β}
    (h : Ran child (plan >>= fun a => pure (f a)) s inner u b t) :
    ∃ a, Ran child plan s inner u a t ∧ b = f a := by
  rcases h.bind with ⟨a, v, first, second⟩ | ⟨a, v, -, second⟩
  · obtain ⟨same, rfl⟩ := Prod.mk.inj second
    exact ⟨a, first, (Except.ok.inj same).symm⟩
  · exact absurd second not_ran_pure

theorem Ran.part {c : NodeSchema} (h : Ran child (Plan.part node) s inner u c t) :
    node = inner ∧ s = u ∧ c = (child inner u).1 := by
  obtain ⟨_ | rest | _, run⟩ := h
  · exact ⟨rfl, rfl, (Except.ok.inj (Prod.mk.inj run).1).symm⟩
  · cases rest

theorem Ran.part? {node? : Option (Node π)} {c : Option NodeSchema}
    (h : Ran child (Plan.part? node?) s inner u c t) :
    node? = some inner ∧ s = u ∧ c = some (child inner u).1 := by
  cases node? with
  | none => exact absurd h not_ran_pure
  | some node =>
    obtain ⟨a, first, rfl⟩ := h.of_pure
    obtain ⟨rfl, rfl, rfl⟩ := first.part
    exact ⟨rfl, rfl, rfl⟩

/-- The answer for a part of a list is among the answers. -/
theorem Ran.parts {nodes : List (Node π)} {cs : List NodeSchema}
    (h : Ran child (Plan.parts nodes) s inner u cs t) : (child inner u).1 ∈ cs := by
  induction nodes generalizing s cs t with
  | nil => exact absurd h not_ran_pure
  | cons node rest ih =>
    rcases h.bind with ⟨c, v, first, second⟩ | ⟨c, v, -, second⟩
    · obtain ⟨rfl, rfl, rfl⟩ := first.part
      obtain ⟨others, w, -, last⟩ := exists_of_carryOut_bind second
      obtain rfl := Except.ok.inj (Prod.mk.inj last).1
      exact List.mem_cons_self
    · obtain ⟨others, ran, rfl⟩ := second.of_pure
      exact List.mem_cons_of_mem _ (ih ran)

/-- Entries keep their keys. -/
theorem keys_of_carryOut_entries {nodes : List (String × Node π)} {cs : List (String × NodeSchema)}
    (h : carryOut child (Plan.entries nodes) s = (.ok cs, t)) :
    Table.keys cs = Table.keys nodes := by
  induction nodes generalizing s cs t with
  | nil =>
    obtain rfl := Except.ok.inj (Prod.mk.inj h).1
    rfl
  | cons entry rest ih =>
    obtain ⟨c, v, -, second⟩ := exists_of_carryOut_bind h
    obtain ⟨others, w, carried, last⟩ := exists_of_carryOut_bind second
    obtain rfl := Except.ok.inj (Prod.mk.inj last).1
    exact congrArg (entry.1 :: ·) (ih carried)

/-- The answer for an entry is that of the last entry of its key, if the key does not come again. -/
theorem Ran.entries {nodes : List (String × Node π)} {cs : List (String × NodeSchema)}
    (h : Ran child (Plan.entries nodes) s inner u cs t) :
    ∃ before key after, nodes = before ++ (key, inner) :: after ∧
      (∃ others, carryOut child (Plan.entries before) s = (.ok others, u)) ∧
      (key ∈ Table.keys after ∨ (key, (child inner u).1) ∈ Table.lastEntries cs) := by
  induction nodes generalizing s cs t with
  | nil => exact absurd h not_ran_pure
  | cons entry rest ih =>
    obtain ⟨key, node⟩ := entry
    rcases h.bind with ⟨c, v, first, second⟩ | ⟨c, v, compiled, second⟩
    · obtain ⟨rfl, rfl, rfl⟩ := first.part
      obtain ⟨others, w, carried, last⟩ := exists_of_carryOut_bind second
      obtain rfl := Except.ok.inj (Prod.mk.inj last).1
      refine ⟨[], key, rest, rfl, ⟨[], rfl⟩, ?_⟩
      rw [← keys_of_carryOut_entries carried, or_iff_not_imp_left]
      intro last
      rw [Table.lastEntries, if_neg last]
      exact List.mem_cons_self
    · obtain ⟨others, ran, rfl⟩ := second.of_pure
      obtain ⟨before, other, after, rfl, ⟨earlier, carried⟩, kept⟩ := ih ran
      refine ⟨(key, node) :: before, other, after, rfl, ?_, kept.imp_right fun mem => ?_⟩
      · exact ⟨_, (carryOut_bind_of_ok _ compiled).trans (carryOut_bind_of_ok _ carried)⟩
      · rw [Table.lastEntries]
        split
        · exact mem
        · exact List.mem_cons_of_mem _ mem

end Plan

namespace Structure

open Plan

/-- The structure of a node has no use for what a part compiles to: the part is the schema of keys
of a record or a map and restricts none, or it is an entry of an object whose key comes again. The
books are those at the start of the structure and at the compilation of the part. -/
inductive Drops (child : Node π → CompileM NodeSchema) (node : Node π) (adapter : Adapter π) :
    Shape → Ledger → Node π → Ledger → Prop where
  | recordKey {s : Ledger} {part : Node π} {value : Option (Node π)} {supply later : Nat}
      (keys : adapter.recordKey node s.supply = (.ok (some part), supply))
      (values : adapter.recordValue node supply = (.ok value, later))
      (free : restrictsKeys (child part { s with supply := later }).1.schema = false) :
      Drops child node adapter .record s part { s with supply := later }
  | mapKey {s : Ledger} {part : Node π} {value : Option (Node π)} {supply later : Nat}
      (keys : adapter.mapKey node s.supply = (.ok (some part), supply))
      (values : adapter.mapValue node supply = (.ok value, later))
      (free : restrictsKeys (child part { s with supply := later }).1.schema = false) :
      Drops child node adapter .map s part { s with supply := later }
  | entry {s u : Ledger} {part : Node π} {supply : Nat} {before after : List (String × Node π)}
      {key : String} {others : List (String × NodeSchema)}
      (entries : adapter.entries node s.supply = (.ok (before ++ (key, part) :: after), supply))
      (earlier : carryOut child (Plan.entries before) { s with supply } = (.ok others, u))
      (again : key ∈ Table.keys after) :
      Drops child node adapter .object s part u

variable {options : DocumentOptions} {node part : Node π} {adapter : Adapter π} {shape : Shape}
  {s t u : Ledger} {assembly : Assembly} {name : String}

/-- A record or a map keeps what its parts cite, unless the schema of keys restricts none. -/
private theorem cites_keyed {key value : Option (Node π)} {bounds : BoundsFamily}
    (h : Ran child (do
      let key ← part? key
      return ({ body := keyed key (← part? value), bounds } : Assembly)) s part u assembly t)
    (cites : Cites (child part u).1.toJson name) :
    Cites (.object assembly.body) name ∨
      key = some part ∧ s = u ∧ restrictsKeys (child part u).1.schema = false := by
  rcases h.bind with ⟨k, v, ran, rest⟩ | ⟨k, v, -, rest⟩
  · obtain ⟨rfl, rfl, rfl⟩ := ran.part?
    obtain ⟨c, w, -, last⟩ := exists_of_carryOut_bind rest
    obtain rfl := Except.ok.inj (Prod.mk.inj last).1
    cases restricts : restrictsKeys (child part s).1.schema with
    | true => exact .inl (cites_keyed_key cites c restricts)
    | false => exact .inr ⟨rfl, rfl, rfl⟩
  · obtain ⟨c, ran, rfl⟩ := rest.of_pure
    obtain ⟨rfl, rfl, rfl⟩ := ran.part?
    exact .inl (cites_keyed_value cites k)

/-- A structure cites what its parts cite, unless it has no use for them. -/
theorem cites_of_ran (h : Ran child (ofShape options node adapter shape) s part u assembly t)
    (cites : Cites (child part u).1.toJson name) :
    Cites (.object assembly.body) name ∨ Drops child node adapter shape s part u := by
  cases shape with
  | promise =>
    obtain ⟨inner?, supply, given, h⟩ := h.question
    cases inner? with
    | none => exact absurd h not_ran_pure
    | some inner =>
      obtain ⟨c, ran, rfl⟩ := h.of_pure
      obtain ⟨rfl, rfl, rfl⟩ := ran.part
      exact .inl cites
  | union =>
    obtain ⟨nodes, supply, given, h⟩ := h.question
    rcases h.bind with ⟨cs, v, ran, rest⟩ | ⟨cs, v, -, rest⟩
    · have mem := ran.parts
      split at rest
      next only =>
        obtain rfl := Except.ok.inj (Prod.mk.inj rest).1
        obtain rfl := List.mem_singleton.1 mem
        exact .inl cites
      next =>
        obtain rfl := Except.ok.inj (Prod.mk.inj rest).1
        exact .inl (cites_union cites mem)
    · split at rest <;> exact absurd rest not_ran_pure
  | intersection =>
    obtain ⟨nodes, supply, given, h⟩ := h.question
    obtain ⟨cs, ran, rfl⟩ := h.of_pure
    exact .inl (cites_intersection cites ran.parts)
  | tuple =>
    obtain ⟨nodes, supply, given, h⟩ := h.question
    rcases h.bind with ⟨cs, v, ran, rest⟩ | ⟨cs, v, -, rest⟩
    · obtain ⟨rest?, w, -, rest⟩ := exists_of_carryOut_bind rest
      obtain ⟨c, x, -, last⟩ := exists_of_carryOut_bind rest
      obtain rfl := Except.ok.inj (Prod.mk.inj last).1
      exact .inl (cites_position cites _ ran.parts)
    · obtain ⟨rest?, supply', -, rest⟩ := rest.question
      obtain ⟨c, ran, rfl⟩ := rest.of_pure
      obtain ⟨rfl, rfl, rfl⟩ := ran.part?
      exact .inl (cites_rest cites cs)
  | object =>
    obtain ⟨nodes, supply, given, h⟩ := h.question
    obtain ⟨cs, ran, rfl⟩ := h.of_pure
    obtain ⟨before, key, after, rfl, ⟨others, earlier⟩, again | last⟩ := ran.entries
    · exact .inr (.entry given earlier again)
    · exact .inl (cites_object cites last)
  | array | set =>
    obtain ⟨element, supply, given, h⟩ := h.question
    obtain ⟨c, ran, rfl⟩ := h.of_pure
    obtain ⟨rfl, rfl, rfl⟩ := ran.part?
    exact .inl (cites_items cites _)
  | record =>
    obtain ⟨key, supply, keys, h⟩ := h.question
    obtain ⟨value, later, values, h⟩ := h.question
    rcases cites_keyed h cites with kept | ⟨rfl, rfl, free⟩
    · exact .inl kept
    · exact .inr (.recordKey keys values free)
  | map =>
    obtain ⟨key, supply, keys, h⟩ := h.question
    obtain ⟨value, later, values, h⟩ := h.question
    rcases cites_keyed h cites with kept | ⟨rfl, rfl, free⟩
    · exact .inl kept
    · exact .inr (.mapKey keys values free)
  | _ => exact absurd h not_ran_pure

end Structure

end SchemaBridge
