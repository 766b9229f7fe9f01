import SchemaBridge.Proofs.Fluent.Graphs
import SchemaBridge.Proofs.Fluent.Outputs
import SchemaBridge.Proofs.Fluent.Structures

/-!
# Work of the validator that comes to an end

The counterpart of work that grants something: work *settles* if it comes to a value from any state,
whatever the data, and reports no issue if the data is sound. Both are needed at once, since the
options of a union that do not accept the data are gone through before the one that does. Only a
schema that is nested too deeply, or a slot that is not defined, keeps the validator from a value.

## Main definitions

* `Fluent.Walk.Settles` : work that comes to a value, and to no issue on sound data.
* `Fluent.Kind.Mirrored` : kinds of which documents state every condition.

## Main results

* `Fluent.Walk.Settles.attempt`, `Fluent.Walk.Settles.bind` : composite work.
* `Fluent.Walk.settles_structure` : structural kinds settle on what matches them.
* `Fluent.Walk.settles_node` : nodes settle as their kinds do.
-/

namespace SchemaBridge.Fluent

open Draft07 Stateful

namespace Walk

variable {γ α β : Type}

/-- Work comes to a value, and if `sound` holds, to one as stated and without an issue. -/
def Settles (work : WalkM α) (sound : Prop) (P : α → Prop) : Prop :=
  ∀ s, ∃ a t, work s = (.ok a, t) ∧ (sound → t.issues = s.issues ∧ P a)

variable {work : WalkM α} {sound sound' : Prop} {P : α → Prop}

/-! ### Steps -/

theorem settles_pure {a : α} (h : sound → P a) : Settles (pure a) sound P :=
  fun s => ⟨a, s, rfl, fun isSound => ⟨rfl, h isSound⟩⟩

/-- An issue is only reported of data that is not sound. -/
theorem settles_complain (message : String) (broken : ¬ sound) {P : Unit → Prop} :
    Settles (complain message) sound P :=
  fun _ => ⟨(), _, rfl, fun isSound => absurd isSound broken⟩

/-! ### Composite work -/

theorem Settles.of_imp (h : Settles work sound P) (stronger : sound' → sound) :
    Settles work sound' P := by
  intro s
  obtain ⟨a, t, runs, settled⟩ := h s
  exact ⟨a, t, runs, fun isSound => settled (stronger isSound)⟩

/-- Work settles on what is sound in some way, if it settles on what is sound in each. -/
theorem Settles.of_exists {ι : Type} {possible sound : ι → Prop} (some : ∃ i, possible i)
    (h : ∀ i, possible i → Settles work (sound i) P) :
    Settles work (∃ i, possible i ∧ sound i) P := by
  intro s
  obtain ⟨i, isPossible⟩ := some
  obtain ⟨a, t, runs, -⟩ := h i isPossible s
  refine ⟨a, t, runs, fun ⟨j, isPossible, isSound⟩ => ?_⟩
  obtain ⟨a', t', runs', settled⟩ := h j isPossible s
  obtain ⟨same, rfl⟩ := Prod.mk.inj (runs.symm.trans runs')
  obtain rfl := Except.ok.inj same
  exact settled isSound

/-- Work in sequence. What comes first may be relied on if the data is sound. -/
theorem Settles.bind {after : α → WalkM β} {R : β → Prop} (h : Settles work sound P)
    (rest : ∀ a, Settles (after a) (sound ∧ P a) R) : Settles (work >>= after) sound R := by
  intro s
  obtain ⟨a, t, first, settled⟩ := h s
  obtain ⟨b, u, second, settled'⟩ := rest a t
  refine ⟨b, u, (bind_of_ok after first).trans second, fun isSound => ?_⟩
  obtain ⟨same, isAsStated⟩ := settled isSound
  obtain ⟨same', isAsStated'⟩ := settled' ⟨isSound, isAsStated⟩
  exact ⟨same'.trans same, isAsStated'⟩

/-- A value after an issue that is reported in some case. -/
theorem settles_checked {broken : Bool} {message : String} {a : α}
    (h : sound → broken = false ∧ P a) :
    Settles (do
      if broken then complain message
      return a) sound P := by
  cases broken with
  | false => exact settles_pure fun isSound => (h isSound).2
  | true =>
    have unsound : ¬ sound := fun isSound => absurd (h isSound).1.symm Bool.false_ne_true
    exact (settles_complain (P := fun _ => True) message unsound).bind fun _ =>
      settles_pure fun isSound => absurd isSound.1 unsound

theorem settles_require {holds : Bool} {expected : String} {data : Json}
    (h : sound → holds = true) : Settles (require holds expected data) sound (· = data) :=
  settles_checked fun isSound => ⟨by rw [h isSound]; rfl, rfl⟩

/-- Data of another type is only refused if it is not sound. -/
theorem settles_refuse {expected : String} {data : Json} (broken : ¬ sound) :
    Settles (require false expected data) sound (· = data) :=
  settles_require fun isSound => absurd isSound broken

theorem Settles.within (h : Settles work sound P) (step : PathStep) :
    Settles (Walk.within step work) sound P := by
  intro s
  obtain ⟨a, t, runs, settled⟩ := h { s with trail := step :: s.trail }
  refine ⟨a, { t with trail := t.trail.tail }, ?_, settled⟩
  change ((work { s with trail := step :: s.trail }).1, _) = _
  rw [runs]

/-- Work that is watched is found to have reported nothing if the data is sound. -/
theorem Settles.noting (h : Settles work sound P) :
    Settles (Walk.noting work) sound fun result => result.2 = true ∧ P result.1 := by
  intro s
  obtain ⟨a, t, runs, settled⟩ := h s
  have watched : Walk.noting work s = (work >>= fun b => get >>= fun t =>
      pure (b, decide (t.issues.length = s.issues.length))) s := rfl
  refine ⟨_, t, watched.trans (bind_of_ok _ runs), fun isSound => ?_⟩
  obtain ⟨same, isAsStated⟩ := settled isSound
  exact ⟨same, by simp [same], isAsStated⟩

/-- Work whose issues are dropped leaves none, sound data or not. -/
theorem Settles.attempt {G : α → Prop} (h : Settles work sound P) (grants : Grants work G) :
    Settles (Walk.attempt work) True fun result =>
      (sound → result.isSome = true) ∧ ∀ a, result = some a → G a := by
  intro s
  obtain ⟨a, t, runs, settled⟩ := h { s with issues := [] }
  have result : Walk.attempt work s =
      (.ok (if t.issues.isEmpty then some a else none), { s with events := t.events }) := by
    change (((work { s with issues := [] }).1).map _, _) = _
    rw [runs]
    rfl
  refine ⟨_, _, result, fun _ => ⟨rfl, fun isSound => ?_, fun b given => ?_⟩⟩
  · rw [(settled isSound).1]
    rfl
  · split at given
    · rename_i none
      obtain rfl := Option.some.inj given
      exact (grants _ a t runs).2 (by simpa using none)
    · cases given

/-! ### Parts -/

/-- No constraint is broken where there is none. -/
theorem settles_unconstrained (data : Json) :
    Settles (constraints .empty data) True fun _ => True := by
  cases data <;> exact settles_pure fun _ => trivial

theorem settles_items {check : Nat → Json → WalkM Json} {takes : Nat → Json → Prop}
    {values : List Json} (i : Nat) (h : ∀ (j : Nat) value, values[j]? = some value →
      Settles (check (i + j) value) (takes (i + j) value) (· = value)) :
    Settles (items check i values)
      (∀ (j : Nat) value, values[j]? = some value → takes (i + j) value) (· = values) := by
  induction values generalizing i with
  | nil => exact settles_pure fun _ => rfl
  | cons value rest ih =>
    have later : ∀ (j : Nat) value, rest[j]? = some value →
        Settles (check (i + 1 + j) value) (takes (i + 1 + j) value) (· = value) := by
      intro j value isItem
      rw [Nat.add_right_comm]
      exact h (j + 1) value isItem
    refine (((h 0 value rfl).within (.index i)).of_imp fun all => all 0 value rfl).bind
      fun output => ?_
    refine ((ih (i + 1) later).of_imp fun all j value isItem => ?_).bind fun outputs => ?_
    · rw [Nat.add_right_comm]
      exact all.1 (j + 1) value isItem
    · exact settles_pure fun same => by rw [same.1.2, same.2]

/-- The members of a set are their own outputs, so that none repeats an earlier one if they are
distinct, and new after those that were seen. -/
theorem settles_members {check : Json → WalkM Json} {takes : Json → Prop} {values : List Json}
    (h : ∀ value ∈ values, Settles (check value) (takes value) (· = value))
    (wellFormed : ∀ value ∈ values, value.WellFormed) (seen : List Json) (i : Nat) :
    Settles (members check seen i values)
      ((∀ value ∈ values, takes value ∧ Json.among seen value = false) ∧
        allDistinct values = true) (· = values) := by
  induction values generalizing seen i with
  | nil => exact settles_pure fun _ => rfl
  | cons value rest ih =>
    obtain ⟨first, later⟩ := List.forall_mem_cons.1 h
    obtain ⟨wellFormedFirst, wellFormedRest⟩ := List.forall_mem_cons.1 wellFormed
    refine ((first.within (.index i)).of_imp
      fun isSound => (isSound.1 value List.mem_cons_self).1).bind fun output => ?_
    have others : Settles (members check (seen ++ [output]) (i + 1) rest)
        (((∀ other ∈ value :: rest, takes other ∧ Json.among seen other = false) ∧
          allDistinct (value :: rest) = true) ∧ output = value) (· = rest) := by
      refine (ih later wellFormedRest (seen ++ [output]) (i + 1)).of_imp ?_
      rintro ⟨⟨all, distinct⟩, rfl⟩
      rw [allDistinct, Bool.and_eq_true, Bool.not_eq_true'] at distinct
      refine ⟨fun other mem => ?_, distinct.2⟩
      obtain ⟨taken, new⟩ := all other (List.mem_cons_of_mem _ mem)
      refine ⟨taken, ?_⟩
      have differs : output.same other = false := by
        refine Bool.eq_false_iff.2 fun same => ?_
        have same' := Json.same_symm _ _ wellFormedFirst (wellFormedRest other mem) same
        exact List.any_eq_false.1 distinct.1 other mem same'
      simpa [Json.among, differs] using new
    cases repeated : Json.among seen output with
    | true =>
      have unsound : ¬ (((∀ other ∈ value :: rest, takes other ∧ Json.among seen other = false) ∧
          allDistinct (value :: rest) = true) ∧ output = value) := by
        rintro ⟨⟨all, -⟩, rfl⟩
        rw [(all _ List.mem_cons_self).2] at repeated
        cases repeated
      refine ((settles_complain (P := fun _ => True) _ unsound).within (.index i)).bind fun _ => ?_
      refine (others.of_imp And.left).bind fun outputs => ?_
      exact settles_pure fun isSound => absurd isSound.1.1 unsound
    | false =>
      refine others.bind fun outputs => ?_
      exact settles_pure fun same => by rw [same.1.2, same.2]

theorem settles_lift {x : Except VendorError α} {a : α} (h : x = .ok a) :
    Settles (liftM x) sound (· = a) := by
  subst h
  exact settles_pure fun _ => rfl

/-- The table of the outputs stays the data: what is there is its own output, and what is not there
may be absent. -/
theorem settles_properties {check : Schema γ → Json → WalkM Json}
    {absence : Schema γ → Except VendorError Absence} {takes : Schema γ → Json → Prop}
    {absent : Schema γ → Prop} {data : Json.Fields} {entries : List (String × Schema γ)}
    (h : ∀ entry ∈ entries, ∀ value, Table.get? data entry.1 = some value →
      Settles (check entry.2 value) (takes entry.2 value) (· = value))
    (skips : ∀ entry ∈ entries, ∃ a, absence entry.2 = .ok a ∧ (absent entry.2 → a = .skip))
    (output : Json.Fields) :
    Settles (properties check absence data entries output)
      (output = data ∧ ∀ entry ∈ entries,
        (∀ value, Table.get? data entry.1 = some value → takes entry.2 value) ∧
          (¬ absent entry.2 → Table.has data entry.1 = true)) (· = data) := by
  induction entries generalizing output with
  | nil => exact settles_pure And.left
  | cons first rest ih =>
    obtain ⟨name, node⟩ := first
    obtain ⟨first, later⟩ := List.forall_mem_cons.1 h
    obtain ⟨⟨a, isAbsence, skip⟩, skips⟩ := List.forall_mem_cons.1 skips
    rw [properties]
    cases found : Table.get? data name with
    | some value =>
      refine (((first value found).within (.key name)).of_imp
        fun isSound => (isSound.2 _ List.mem_cons_self).1 value found).bind fun part => ?_
      refine (ih later skips (Table.put output name part)).of_imp ?_
      rintro ⟨⟨rfl, all⟩, rfl⟩
      exact ⟨Table.put_of_get? found, (List.forall_mem_cons.1 all).2⟩
    | none =>
      refine (settles_lift isAbsence).bind fun a' => ?_
      -- Anything else than leaving the entry out is not sound.
      have mustSkip : ((output = data ∧ ∀ entry ∈ (name, node) :: rest,
          (∀ value, Table.get? data entry.1 = some value → takes entry.2 value) ∧
            (¬ absent entry.2 → Table.has data entry.1 = true)) ∧ a' = a) → a' = .skip := by
        rintro ⟨⟨-, all⟩, rfl⟩
        by_contra other
        have present := (all _ List.mem_cons_self).2 fun isAbsent => other (skip isAbsent)
        rw [Table.has, found] at present
        cases present
      cases a' with
      | skip =>
        exact (ih later skips output).of_imp fun isSound =>
          ⟨isSound.1.1, (List.forall_mem_cons.1 isSound.1.2).2⟩
      | fill value =>
        exact (ih later skips _).of_imp fun isSound => by cases mustSkip isSound
      | missing =>
        refine ((settles_complain (P := fun _ => True) "required"
          fun isSound => by cases mustSkip isSound).within (.key name)).bind fun _ => ?_
        exact (ih later skips output).of_imp fun isSound => by cases mustSkip isSound.1

/-- If some option takes the data, an option is found; and whichever is found leaves the data as it
is. -/
theorem settles_firstOf {check : Schema γ → WalkM Json} {takes : Schema γ → Prop} {data : Json}
    {options : List (Schema γ)}
    (h : ∀ option ∈ options, Settles (check option) (takes option) (· = data))
    (unchanged : ∀ option ∈ options, Grants (check option) (· = data)) :
    Settles (firstOf check options) True fun result =>
      ((∃ option ∈ options, takes option) → result.isSome = true) ∧
        ∀ output, result = some output → output = data := by
  induction options with
  | nil => exact settles_pure fun _ => ⟨nofun, nofun⟩
  | cons option rest ih =>
    obtain ⟨first, later⟩ := List.forall_mem_cons.1 h
    obtain ⟨unchangedFirst, unchanged⟩ := List.forall_mem_cons.1 unchanged
    refine (first.attempt unchangedFirst).bind fun result => ?_
    cases result with
    | some output => exact settles_pure fun found => ⟨fun _ => rfl, fun _ same => by
        obtain rfl := Option.some.inj same
        exact found.2.2 output rfl⟩
    | none =>
      intro s
      obtain ⟨result, t, runs, settled⟩ := ih later unchanged s
      refine ⟨result, t, runs, fun notFirst => ?_⟩
      obtain ⟨same, found, isData⟩ := settled trivial
      refine ⟨same, fun ⟨other, mem, taken⟩ => ?_, isData⟩
      rcases List.mem_cons.1 mem with rfl | mem
      · cases notFirst.2.1 taken
      · exact found ⟨other, mem, taken⟩

theorem settles_intersection {check : Schema γ → WalkM Json} {takes : Schema γ → Prop} {data : Json}
    {parts : List (Schema γ)}
    (h : ∀ part ∈ parts, Settles (check part) (takes part) (· = data)) :
    Settles (parts.forM fun part => discard (check part)) (∀ part ∈ parts, takes part)
      fun _ => True := by
  induction parts with
  | nil => exact settles_pure fun _ => trivial
  | cons part rest ih =>
    obtain ⟨first, later⟩ := List.forall_mem_cons.1 h
    have discarded : Settles (discard (check part)) (∀ other ∈ part :: rest, takes other)
        fun _ => True :=
      (first.of_imp fun all => all part List.mem_cons_self).bind fun _ =>
        settles_pure fun _ => trivial
    exact discarded.bind fun _ => (ih later).of_imp fun all => (List.forall_mem_cons.1 all.1).2

theorem settles_tuple {check : Schema γ → Json → WalkM Json} {takes : Schema γ → Json → Prop}
    {nodes : List (Schema γ)} {rest : Option (Schema γ)} {values : List Json}
    (h : ∀ part ∈ (Kind.tuple (γ := γ) nodes rest).nodes, ∀ value ∈ values,
      Settles (check part value) (takes part value) (· = value)) :
    Settles (tuple check nodes rest (.array values) values)
      (nodes.length ≤ values.length ∧ (rest = none → values.length ≤ nodes.length) ∧
        ∀ (i : Nat) value, values[i]? = some value → ∀ part, nodes[i]?.or rest = some part →
          takes part value) (· = .array values) := by
  unfold tuple
  by_cases few : values.length < nodes.length
  · rw [if_pos few]
    have unsound {P : Prop} : ¬ (nodes.length ≤ values.length ∧ P) := fun isSound =>
      absurd isSound.1 (Nat.not_le_of_lt few)
    exact (settles_complain (P := fun _ => True) _ unsound).bind fun _ => settles_pure fun _ => rfl
  · rw [if_neg few]
    by_cases many : (rest.isNone && decide (nodes.length < values.length)) = true
    · rw [if_pos many]
      rw [Bool.and_eq_true, Option.isNone_iff_eq_none, decide_eq_true_eq] at many
      refine (settles_complain (P := fun _ => True) _ fun isSound => ?_).bind fun _ =>
        settles_pure fun _ => rfl
      exact absurd (isSound.2.1 many.1) (Nat.not_le_of_lt many.2)
    · rw [if_neg many]
      refine ((@settles_items _ (fun i value => ∀ part, nodes[i]?.or rest = some part →
        takes part value) _ 0 fun i value isItem => ?_).of_imp
          fun isSound i value isItem => ?_).bind fun outputs =>
        settles_pure fun same => by rw [same.2]
      · rw [Nat.zero_add]
        cases isPart : nodes[i]?.or rest with
        | none => exact settles_pure fun _ => rfl
        | some part =>
          exact (h part (Kind.mem_nodes_tuple isPart) value (List.mem_of_getElem? isItem)).of_imp
            fun all => all part rfl
      · rw [Nat.zero_add]
        exact isSound.2.2 i value isItem

end Walk

/-! ### Kinds -/

variable {γ : Type}

/-- The kinds of which documents state every condition on the data: the keys of an object are
distinct, a slot is defined, and nothing is put in or replaced. -/
def Kind.Mirrored (scope : Scope γ) : Kind γ (Schema γ) → Prop
  | .literal value => value.WellFormed
  | .object entries => (Table.keys entries).Nodup
  | .deferred (.slot name) => ∃ node, scope.slots name = some node
  | .deferred (.getter _) | .undefined | .void | .bigint | .record _ _ | .map _ _ | .defaulted _ _
  | .caught _ _ | .refined _ _ _ | .transformed _ _ => False
  | _ => True

/-- None of these kinds states conditions on keys. -/
theorem Kind.Mirrored.not_keyed {scope : Scope γ} {kind : Kind γ (Schema γ)}
    (mirrored : kind.Mirrored scope) :
    kind.predicate ≠ .shape .record ∧ kind.predicate ≠ .shape .map := by
  cases kind <;> first | exact mirrored.elim | exact ⟨nofun, nofun⟩

namespace Walk

variable {scope : Scope γ} {check : Schema γ → Json → WalkM Json} {takes : Schema γ → Json → Prop}
  {absent : Schema γ → Prop} {kind : Kind γ (Schema γ)} {data : Json}

/-- Work on the items of the data, which is an issue for anything else than an array. -/
theorem settles_array {work : List Json → WalkM (List Json)} {S : List Json → Prop}
    (h : ∀ values, data = .array values → Settles (work values) (S values) (· = values)) :
    Settles (match data.asArray? with
      | some values => do return .array (← work values)
      | none => require false "array" data) (∃ values, data = .array values ∧ S values)
        (· = data) := by
  cases data with
  | array values =>
    refine ((h values rfl).of_imp ?_).bind fun outputs => settles_pure fun same => by rw [same.2]
    rintro ⟨_, ⟨⟩, isSound⟩
    exact isSound
  | null | bool | number | string | object =>
    refine settles_refuse ?_
    rintro ⟨_, ⟨⟩, -⟩

/-- Work on the entries of the data, which is an issue for anything else than an object. -/
theorem settles_object {work : Json.Fields → WalkM Json.Fields} {S : Json.Fields → Prop}
    (h : ∀ fields, data = .object fields → Settles (work fields) (S fields) (· = fields)) :
    Settles (match data.asObject? with
      | some fields => do return .object (← work fields)
      | none => require false "object" data) (∃ fields, data = .object fields ∧ S fields)
        (· = data) := by
  cases data with
  | object fields =>
    refine ((h fields rfl).of_imp ?_).bind fun outputs => settles_pure fun same => by rw [same.2]
    rintro ⟨_, ⟨⟩, isSound⟩
    exact isSound
  | null | bool | number | string | array =>
    refine settles_refuse ?_
    rintro ⟨_, ⟨⟩, -⟩

/-- A structural kind settles on what matches it, if its parts settle on what they take. -/
theorem settles_structure {shape : Shape} (isShape : kind.predicate = .shape shape)
    (mirrored : kind.Mirrored scope) (wellFormed : data.WellFormed)
    (parts : ∀ part ∈ kind.nodes, ∀ value : Json, value.WellFormed →
      Settles (check part value) (takes part value) (· = value))
    (unchanged : ∀ part ∈ kind.nodes, ∀ value, Grants (check part value) (· = value))
    (skips : ∀ part ∈ kind.nodes, ∃ a, absence scope nestingLimit part = .ok a ∧
      (absent part → a = .skip)) :
    Settles (Walk.kind scope check kind data) (kind.Matches takes absent data) (· = data) := by
  cases kind with
  | string | date | number | boolean | null =>
    refine settles_require fun isType => ?_
    cases data <;> first | rfl | cases isType
  | never =>
    exact (settles_complain (P := fun _ => True) _ id).bind fun _ => settles_pure fun _ => rfl
  | any | unknown | symbol | function => exact settles_pure fun _ => rfl
  | literal value =>
    refine settles_checked fun same => ⟨?_, rfl⟩
    rw [Json.same_symm value data mirrored wellFormed same]
    rfl
  | enumeration values =>
    refine settles_checked fun among => ⟨?_, rfl⟩
    rw [Kind.Matches] at among
    rw [among]
    rfl
  | instanceOf className =>
    rw [Walk.kind]
    by_cases isDate : className = "Date"
    · rw [if_pos isDate, isDate]
      refine settles_require fun isType => ?_
      cases data <;> first | rfl | cases isType
    · rw [if_neg isDate, Kind.Matches, if_neg isDate]
      refine settles_checked fun isType => ⟨?_, rfl⟩
      cases data <;> first | rfl | cases isType
  | object entries =>
    have isNode {entry : String × Schema γ} (mem : entry ∈ entries) :
        entry.2 ∈ (Kind.object (γ := γ) entries).nodes := List.mem_map_of_mem mem
    rw [Kind.Matches, Table.lastEntries_of_nodup mirrored]
    refine settles_object fun fields isObject => ?_
    rw [isObject, Json.WellFormed] at wellFormed
    exact (settles_properties (fun entry mem value found => parts _ (isNode mem) value
      (wellFormed.2.of_mem (Table.mem_of_get? found))) (fun entry mem => skips _ (isNode mem))
        fields).of_imp fun all => ⟨rfl, all⟩
  | array element =>
    refine settles_array fun values isArray => ?_
    rw [isArray, Json.WellFormed] at wellFormed
    exact (@settles_items _ (fun _ => takes element) _ 0 fun i value isItem =>
      parts element (List.mem_singleton_self _) value
        (wellFormed.of_mem (List.mem_of_getElem? isItem))).of_imp
          fun all i value isItem => all value (List.mem_of_getElem? isItem)
  | set element =>
    refine settles_array fun values isArray => ?_
    rw [isArray, Json.WellFormed] at wellFormed
    exact (settles_members (fun value mem => parts element (List.mem_singleton_self _) value
      (wellFormed.of_mem mem)) (fun value mem => wellFormed.of_mem mem) [] 0).of_imp
        fun isSound => ⟨fun value mem => ⟨isSound.2 value mem, rfl⟩, isSound.1⟩
  | tuple positions rest =>
    cases data with
    | array values =>
      rw [Json.WellFormed] at wellFormed
      refine (settles_tuple fun part mem value isItem =>
        parts part mem value (wellFormed.of_mem isItem)).of_imp ?_
      rintro ⟨_, ⟨⟩, all⟩
      exact all
    | null | bool | number | string | object =>
      refine settles_refuse ?_
      rintro ⟨_, ⟨⟩, -⟩
  | union options =>
    refine ((settles_firstOf (fun option mem => parts option mem data wellFormed)
      fun option mem => unchanged option mem data).of_imp fun _ => trivial).bind fun result => ?_
    cases result with
    | some output => exact settles_pure fun found => found.2.2 output rfl
    | none =>
      refine (settles_complain (P := fun _ => True) _ fun found => ?_).bind fun _ =>
        settles_pure fun _ => rfl
      cases found.2.1 found.1
  | intersection members =>
    exact (settles_intersection fun part mem => parts part mem data wellFormed).bind fun _ =>
      settles_pure fun _ => rfl
  | promise inner => exact parts inner (List.mem_singleton_self _) data wellFormed
  | undefined | void | bigint | record | map => cases mirrored
  | _ => cases isShape

/-- A node without constraints settles as its kind does. -/
theorem settles_node {node : Schema γ} {layer : Layer γ} {sound : Prop} {room : Nat}
    (seen : node.payload.fluent? = some layer) (free : layer.details.constraints = .empty)
    (h : Settles (Walk.kind scope (Walk.node scope room) layer.kind data) sound (· = data)) :
    Settles (Walk.node scope (room + 1) node data) sound (· = data) := by
  rw [Walk.node, seen]
  refine h.noting.bind ?_
  rintro ⟨output, clean⟩
  dsimp only
  rw [free]
  cases clean with
  | true =>
    exact ((settles_unconstrained data).of_imp fun _ => trivial).bind fun _ =>
      settles_pure fun isSound => isSound.1.2.2
  | false => exact settles_pure fun isSound => isSound.2.2

end Walk

end SchemaBridge.Fluent
