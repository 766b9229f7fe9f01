import SchemaBridge.Proofs.Compile.Shortening
import SchemaBridge.Proofs.Fluent.Repeating
import SchemaBridge.Proofs.Json.Equality

/-!
# Defaults that are filled in

Where an entry of an object is absent, the validator goes down the layers of its node until one says
what to do. A default puts its value in, past all layers above it: their refinements are not asked,
their transformations not applied and their constraints not looked at, and the constraints of the
object are compared with the data without the entry. Supplying the value goes through all of that.
So the one is as good as the other just where none of it matters.

## Main definitions

* `Fluent.DefaultsTo` : the layers of a node lead to a default.
* `Fluent.Beside` : two tables agree but for one key.
* `Fluent.SameOutcome` : data is accepted with the same output, or not accepted, in two ways.

## Main results

* `Fluent.Walk.Gathers.supplied` : a table of outputs with a default against one with the value.
* `Fluent.sameOutcome_supplied_iff` : when filling a default in equals supplying it.
-/

namespace SchemaBridge.Fluent

variable {γ : Type} {scope : Scope γ}

/-! ### Defaults behind layers -/

/-- The layers of a node lead to a default: there are only layers in between that an absent entry is
asked past. -/
inductive DefaultsTo (scope : Scope γ) (value : Json) : Schema γ → Prop where
  | here {node inner : Schema γ} {layer : Layer γ} (seen : node.payload.fluent? = some layer)
      (isDefault : layer.kind = .defaulted inner value) : DefaultsTo scope value node
  | nullable {node inner : Schema γ} {layer : Layer γ} (seen : node.payload.fluent? = some layer)
      (isLayer : layer.kind = .nullable inner) (inside : DefaultsTo scope value inner) :
      DefaultsTo scope value node
  | branded {node inner : Schema γ} {layer : Layer γ} {name : String}
      (seen : node.payload.fluent? = some layer) (isLayer : layer.kind = .branded inner name)
      (inside : DefaultsTo scope value inner) : DefaultsTo scope value node
  | refined {node inner : Schema γ} {layer : Layer γ} {message : String} {holds : Json → Bool}
      (seen : node.payload.fluent? = some layer)
      (isLayer : layer.kind = .refined inner message holds)
      (inside : DefaultsTo scope value inner) :
      DefaultsTo scope value node
  | transformed {node inner : Schema γ} {layer : Layer γ} {apply : Json → Json}
      (seen : node.payload.fluent? = some layer) (isLayer : layer.kind = .transformed inner apply)
      (inside : DefaultsTo scope value inner) : DefaultsTo scope value node
  | deferred {node inner : Schema γ} {layer : Layer γ} {target : Deferred γ}
      (seen : node.payload.fluent? = some layer) (isLayer : layer.kind = .deferred target)
      (defined : Walk.targetOf scope target = .ok inner) (inside : DefaultsTo scope value inner) :
      DefaultsTo scope value node

/-- An absent entry of a node that leads to a default becomes its value, unless the layers are too
many. -/
theorem DefaultsTo.absence_eq {value : Json} {node : Schema γ} (h : DefaultsTo scope value node)
    {room : Nat} {a : Absence} (isAbsence : Walk.absence scope room node = .ok a) :
    a = .fill value := by
  induction h generalizing room with
  | here seen isDefault =>
    cases room with
    | zero => cases isAbsence
    | succ room =>
      rw [Walk.absence, seen] at isAbsence
      simp only [isDefault] at isAbsence
      exact (Except.ok.inj isAbsence).symm
  | nullable seen isLayer _ ih | branded seen isLayer _ ih | refined seen isLayer _ ih
  | transformed seen isLayer _ ih =>
    cases room with
    | zero => cases isAbsence
    | succ room =>
      rw [Walk.absence, seen] at isAbsence
      simp only [isLayer] at isAbsence
      exact ih isAbsence
  | deferred seen isLayer defined _ ih =>
    cases room with
    | zero => cases isAbsence
    | succ room =>
      rw [Walk.absence, seen] at isAbsence
      simp only [isLayer, defined] at isAbsence
      exact ih isAbsence

/-! ### Tables that agree but for one key -/

/-- Two tables agree but for one key. -/
structure Beside (name : String) (a b : Json.Fields) : Prop where
  nodup : (Table.keys a).Nodup
  nodup' : (Table.keys b).Nodup
  others : ∀ other, other ≠ name → Table.get? a other = Table.get? b other

namespace Beside

variable {name : String} {a b : Json.Fields}

theorem put (h : Beside name a b) (key : String) (value : Json) :
    Beside name (Table.put a key value) (Table.put b key value) := by
  refine ⟨Table.nodup_keys_put a key value h.nodup, Table.nodup_keys_put b key value h.nodup',
    fun other ne => ?_⟩
  rw [Table.get?_put, Table.get?_put, h.others other ne]

theorem put_self (h : Beside name a b) (value value' : Json) :
    Beside name (Table.put a name value) (Table.put b name value') := by
  refine ⟨Table.nodup_keys_put a name value h.nodup, Table.nodup_keys_put b name value' h.nodup',
    fun other ne => ?_⟩
  rw [Table.get?_put_of_ne a value ne.symm, Table.get?_put_of_ne b value' ne.symm,
    h.others other ne]

/-- Tables that agree but for one key, which both of them have, have equally many entries. -/
theorem length_eq (h : Beside name a b) (mem : name ∈ Table.keys a) (mem' : name ∈ Table.keys b) :
    a.length = b.length := by
  have keys (other : String) : other ∈ Table.keys a ↔ other ∈ Table.keys b := by
    by_cases same : other = name
    · subst same
      exact iff_of_true mem mem'
    · rw [← not_iff_not, ← Table.get?_eq_none_iff, ← Table.get?_eq_none_iff, h.others other same]
  have count := ((List.perm_ext_iff_of_nodup h.nodup h.nodup').2 keys).length_eq
  rwa [Table.keys, Table.keys, List.length_map, List.length_map] at count

/-- Tables that agree but for one key, which both of them have, are the same as objects if their
values for the key are the same. -/
theorem same_iff (h : Beside name a b) (wellFormed : (Json.object a).WellFormed)
    {value value' : Json}
    (found : Table.get? a name = some value) (found' : Table.get? b name = some value') :
    (Json.object a).same (.object b) = true ↔ value.same value' = true := by
  have mem := Table.mem_of_get? found
  have count :=
    h.length_eq (List.mem_map_of_mem mem) (List.mem_map_of_mem (Table.mem_of_get? found'))
  rw [Json.WellFormed] at wellFormed
  rw [Json.same, count, beq_self_eq_true, Bool.true_and, Json.sameFields_iff]
  constructor
  · intro all
    obtain ⟨_, isValue, same⟩ := all name value mem
    obtain rfl := Option.some.inj (found'.symm.trans isValue)
    exact same
  · intro same key c mem
    have isValue := Table.get?_of_mem h.nodup mem
    by_cases isName : key = name
    · subst isName
      obtain rfl := Option.some.inj (found.symm.trans isValue)
      exact ⟨value', found', same⟩
    · rw [h.others key isName] at isValue
      exact ⟨c, isValue, Json.same_refl c (wellFormed.2.of_mem mem)⟩

end Beside

/-! ### Entries of an object -/

namespace Walk

/-- The outputs of the entries of an object schema are put into a table, which is the output in the
end, and all of this is clean or not. -/
inductive Gathers (check : Schema γ → Json → WalkM Json)
    (absence : Schema γ → Except VendorError Absence) (data : Json.Fields) :
    List (String × Schema γ) → Json.Fields → Json.Fields → Bool → Prop where
  | nil (output : Json.Fields) : Gathers check absence data [] output output true
  | present {name : String} {node : Schema γ} {rest : List (String × Schema γ)} {value part : Json}
      {before after : Json.Fields} {clean clean' : Bool} (found : Table.get? data name = some value)
      (comes : ComesTo (check node value) part clean)
      (others : Gathers check absence data rest (Table.put before name part) after clean') :
      Gathers check absence data ((name, node) :: rest) before after (clean && clean')
  | skipped {name : String} {node : Schema γ} {rest : List (String × Schema γ)}
      {before after : Json.Fields} {clean : Bool} (absent : Table.get? data name = none)
      (skip : absence node = .ok .skip)
      (others : Gathers check absence data rest before after clean) :
      Gathers check absence data ((name, node) :: rest) before after clean
  | filled {name : String} {node : Schema γ} {rest : List (String × Schema γ)} {value : Json}
      {before after : Json.Fields} {clean : Bool} (absent : Table.get? data name = none)
      (fill : absence node = .ok (.fill value))
      (others : Gathers check absence data rest (Table.put before name value) after clean) :
      Gathers check absence data ((name, node) :: rest) before after clean
  | missing {name : String} {node : Schema γ} {rest : List (String × Schema γ)}
      {before after : Json.Fields} {clean : Bool} (absent : Table.get? data name = none)
      (missing : absence node = .ok .missing)
      (others : Gathers check absence data rest before after clean) :
      Gathers check absence data ((name, node) :: rest) before after false

variable {check : Schema γ → Json → WalkM Json} {absence : Schema γ → Except VendorError Absence}
  {data data' before before' after : Json.Fields} {entries : List (String × Schema γ)}
  {name : String} {clean : Bool}

/-- What is gathered is what the work on the entries comes to. -/
theorem Gathers.comesTo (h : Gathers check absence data entries before after clean) :
    ComesTo (properties check absence data entries before) after clean := by
  induction h with
  | nil output => exact comesTo_pure output
  | present found comes _ ih =>
    rw [properties, found]
    exact (comes.within _).bind ih
  | skipped absent isAbsence _ ih | filled absent isAbsence _ ih =>
    rw [properties, absent]
    exact (lift_bind isAbsence _).symm ▸ ih
  | @missing name _ _ _ _ _ absent isAbsence _ ih =>
    rw [properties, absent]
    have issue := (comesTo_complain "required").within (.key name)
    exact (lift_bind isAbsence _).symm ▸ ComesTo.bind issue ih

/-- What the work on the entries comes to is gathered. -/
theorem ComesTo.gathers (again : ∀ node data, Repeats (check node data) (check node data))
    (h : ComesTo (properties check absence data entries before) after clean) :
    Gathers check absence data entries before after clean := by
  induction entries generalizing before clean with
  | nil =>
    obtain ⟨rfl, rfl⟩ := h.unique (comesTo_pure before)
    exact .nil _
  | cons first rest ih =>
    obtain ⟨name, node⟩ := first
    have later := repeats_properties again absence data rest
    rw [properties] at h
    cases found : Table.get? data name with
    | some value =>
      simp only [found] at h
      obtain ⟨part, _, _, comes, others, rfl⟩ := h.of_bind ((again node value).within _)
        fun part => later _
      exact .present found (comes.of_within (again node value)) (ih others)
    | none =>
      simp only [found] at h
      cases isAbsence : absence node with
      | error error =>
        simp only [isAbsence] at h
        have fails : Fails (throw error : WalkM Absence) := fun s => ⟨error, s, rfl⟩
        exact absurd (fails.bind _) h.not_fails
      | ok a =>
        simp only [lift_bind isAbsence] at h
        cases a with
        | skip => exact .skipped found isAbsence (ih h)
        | fill value => exact .filled found isAbsence (ih h)
        | missing =>
          obtain ⟨_, _, _, issue, others, rfl⟩ := h.of_bind
            ((repeats_complain "required").within _) fun _ => later _
          obtain ⟨-, rfl⟩ := issue.unique ((comesTo_complain "required").within _)
          exact .missing found isAbsence (ih others)

/-- The value of an entry that is there was checked. -/
theorem Gathers.exists_comesTo (h : Gathers check absence data entries before after clean)
    {node : Schema γ} {value : Json} (mem : (name, node) ∈ entries)
    (found : Table.get? data name = some value) :
    ∃ part clean, ComesTo (check node value) part clean := by
  induction h with
  | nil => cases mem
  | present found' comes _ ih =>
    rcases List.mem_cons.1 mem with same | mem
    · obtain ⟨rfl, rfl⟩ := Prod.mk.inj same
      obtain rfl := Option.some.inj (found'.symm.trans found)
      exact ⟨_, _, comes⟩
    · exact ih mem
  | skipped absent _ _ ih | filled absent _ _ ih | missing absent _ _ ih =>
    rcases List.mem_cons.1 mem with same | mem
    · obtain ⟨rfl, rfl⟩ := Prod.mk.inj same
      cases absent.symm.trans found
    · exact ih mem

/-- What becomes of an absent entry is asked. -/
theorem Gathers.exists_absence (h : Gathers check absence data entries before after clean)
    {node : Schema γ} (mem : (name, node) ∈ entries) (absent : Table.get? data name = none) :
    ∃ a, absence node = .ok a := by
  induction h with
  | nil => cases mem
  | present found _ _ ih =>
    rcases List.mem_cons.1 mem with same | mem
    · obtain ⟨rfl, rfl⟩ := Prod.mk.inj same
      cases absent.symm.trans found
    · exact ih mem
  | skipped _ isAbsence _ ih | filled _ isAbsence _ ih | missing _ isAbsence _ ih =>
    rcases List.mem_cons.1 mem with same | mem
    · obtain ⟨rfl, rfl⟩ := Prod.mk.inj same
      exact ⟨_, isAbsence⟩
    · exact ih mem

/-- From data that agrees but for the key of no entry, the same is gathered but for that key. -/
theorem Gathers.of_agrees (h : Gathers check absence data entries before after clean)
    (agree : ∀ other, other ≠ name → Table.get? data other = Table.get? data' other)
    (notMem : name ∉ Table.keys entries) (start : Beside name before before') :
    ∃ after', Gathers check absence data' entries before' after' clean ∧ Beside name after after' ∧
      Table.get? after name = Table.get? before name ∧
      Table.get? after' name = Table.get? before' name := by
  induction h generalizing before' with
  | nil output => exact ⟨before', .nil before', start, rfl, rfl⟩
  | present found comes _ ih =>
    obtain ⟨ne, notMem⟩ := not_or.1 (mt List.mem_cons.2 notMem)
    rw [agree _ (Ne.symm ne)] at found
    obtain ⟨after', others, beside, same, same'⟩ := ih notMem (start.put _ _)
    rw [Table.get?_put_of_ne _ _ (Ne.symm ne)] at same same'
    exact ⟨after', .present found comes others, beside, same, same'⟩
  | skipped absent skip _ ih =>
    obtain ⟨ne, notMem⟩ := not_or.1 (mt List.mem_cons.2 notMem)
    rw [agree _ (Ne.symm ne)] at absent
    obtain ⟨after', others, rest⟩ := ih notMem start
    exact ⟨after', .skipped absent skip others, rest⟩
  | filled absent fill _ ih =>
    obtain ⟨ne, notMem⟩ := not_or.1 (mt List.mem_cons.2 notMem)
    rw [agree _ (Ne.symm ne)] at absent
    obtain ⟨after', others, beside, same, same'⟩ := ih notMem (start.put _ _)
    rw [Table.get?_put_of_ne _ _ (Ne.symm ne)] at same same'
    exact ⟨after', .filled absent fill others, beside, same, same'⟩
  | missing absent missing _ ih =>
    obtain ⟨ne, notMem⟩ := not_or.1 (mt List.mem_cons.2 notMem)
    rw [agree _ (Ne.symm ne)] at absent
    obtain ⟨after', others, rest⟩ := ih notMem start
    exact ⟨after', .missing absent missing others, rest⟩

/-- If the value that an absent entry is filled with is supplied instead, what is gathered is the
same but for the output of the entry, and clean if that is. -/
theorem Gathers.supplied (h : Gathers check absence data entries before after clean)
    (distinct : (Table.keys entries).Nodup) {node : Schema γ} (mem : (name, node) ∈ entries)
    {value part : Json} {clean' : Bool} (fills : absence node = .ok (.fill value))
    (comes : ComesTo (check node value) part clean')
    (agree : ∀ other, other ≠ name → Table.get? data other = Table.get? data' other)
    (absent : Table.get? data name = none) (found : Table.get? data' name = some value)
    (start : Beside name before before') :
    ∃ after', Gathers check absence data' entries before' after' (clean && clean') ∧
      Beside name after after' ∧ Table.get? after name = some value ∧
      Table.get? after' name = some part := by
  have notHere {first : String} {rest : List (String × Schema γ)} (mem : (name, node) ∈ rest)
      (distinct : (first :: Table.keys rest).Nodup) : first ≠ name := by
    rintro rfl
    exact (List.nodup_cons.1 distinct).1 (List.mem_map_of_mem mem)
  induction h generalizing before' with
  | nil => cases mem
  | present found' comes' _ ih =>
    rcases List.mem_cons.1 mem with same | mem
    · obtain ⟨rfl, rfl⟩ := Prod.mk.inj same
      cases absent.symm.trans found'
    · have ne := notHere mem distinct
      rw [agree _ ne] at found'
      obtain ⟨after', others, rest⟩ := ih (List.nodup_cons.1 distinct).2 mem (start.put _ _)
      rw [Bool.and_assoc]
      exact ⟨after', .present found' comes' others, rest⟩
  | skipped absent' skip _ ih =>
    rcases List.mem_cons.1 mem with same | mem
    · obtain ⟨rfl, rfl⟩ := Prod.mk.inj same
      cases fills.symm.trans skip
    · rw [agree _ (notHere mem distinct)] at absent'
      obtain ⟨after', others, rest⟩ := ih (List.nodup_cons.1 distinct).2 mem start
      exact ⟨after', .skipped absent' skip others, rest⟩
  | filled absent' fill others ih =>
    rcases List.mem_cons.1 mem with same | mem
    · obtain ⟨rfl, rfl⟩ := Prod.mk.inj same
      obtain rfl := Absence.fill.inj (Except.ok.inj (fills.symm.trans fill))
      obtain ⟨after', others', beside, isValue, isPart⟩ := others.of_agrees agree
        (List.nodup_cons.1 distinct).1 (start.put_self value part)
      rw [Table.get?_put_self] at isValue isPart
      rw [Bool.and_comm]
      exact ⟨after', .present found comes others', beside, isValue, isPart⟩
    · rw [agree _ (notHere mem distinct)] at absent'
      obtain ⟨after', others', rest⟩ := ih (List.nodup_cons.1 distinct).2 mem (start.put _ _)
      exact ⟨after', .filled absent' fill others', rest⟩
  | missing absent' missing _ ih =>
    rcases List.mem_cons.1 mem with same | mem
    · obtain ⟨rfl, rfl⟩ := Prod.mk.inj same
      cases fills.symm.trans missing
    · rw [agree _ (notHere mem distinct)] at absent'
      obtain ⟨after', others, rest⟩ := ih (List.nodup_cons.1 distinct).2 mem start
      exact ⟨after', .missing absent' missing others, rest⟩

end Walk

/-! ### Objects -/

/-- Data is accepted with the same output in two ways, up to the order of keys, or in neither. -/
def SameOutcome (a b : VendorOutcome) : Prop :=
  (∀ output, a = .parsed output → ∃ output', b = .parsed output' ∧ output.same output' = true) ∧
    ((∃ output, b = .parsed output) → ∃ output, a = .parsed output)

/-- Two ways lead to the same outcome if they are clean alike and come to the same value. -/
theorem sameOutcome_iff {a b : VendorOutcome} {output output' : Json} {clean clean' : Bool}
    (parsed : ∀ result, a = .parsed result ↔ clean = true ∧ result = output)
    (parsed' : ∀ result, b = .parsed result ↔ clean' = true ∧ result = output') :
    SameOutcome a b ↔
      (clean = true → clean' = true ∧ output.same output' = true) ∧
        (clean' = true → clean = true) := by
  simp only [SameOutcome, parsed, parsed', and_imp, exists_and_left, exists_eq, and_true]
  refine and_congr ⟨fun h wasClean => ?_, fun h result wasClean isOutput => ?_⟩ Iff.rfl
  · obtain ⟨result, ⟨wasClean', rfl⟩, same⟩ := h output wasClean rfl
    exact ⟨wasClean', same⟩
  · subst isOutput
    obtain ⟨wasClean', same⟩ := h wasClean
    exact ⟨output', ⟨wasClean', rfl⟩, same⟩

/-- What the node of an object comes to is gathered from its entries. -/
theorem Walk.ComesTo.of_object {node : Schema γ} {layer : Layer γ}
    {entries : List (String × Schema γ)} {fields : Json.Fields} {output : Json} {clean : Bool}
    {room : Nat} (seen : node.payload.fluent? = some layer)
    (isObject : layer.kind = .object entries)
    (h : ComesTo (Walk.node scope (room + 1) node (.object fields)) output clean) :
    ∃ outputs gathered, output = .object outputs ∧
      Gathers (Walk.node scope room) (absence scope nestingLimit) fields entries fields outputs
          gathered ∧
        (clean = true ↔ gathered = true ∧ Admits layer.details.constraints (.object fields)) := by
  obtain ⟨clean', inside, isClean⟩ := h.of_node seen
  rw [isObject] at inside
  have again := repeats_node scope room 0
  obtain ⟨outputs, gathered, _, comes, last, rfl⟩ := ComesTo.of_bind inside
    (repeats_properties again _ fields entries fields) fun outputs => repeats_pure _
  obtain ⟨rfl, rfl⟩ := last.unique (comesTo_pure _)
  rw [Bool.and_true] at isClean
  exact ⟨outputs, gathered, rfl, comes.gathers again, isClean⟩

/-- Filling a default in equals supplying it if and only if: where the object is accepted without
the entry, its constraints admit it with the entry too, and the node of the entry accepts the value
and leaves it as it is; and where it is accepted with the entry, its constraints admit it without.
No object in the output has a key twice, so that values can be compared up to the order of keys. -/
theorem sameOutcome_supplied_iff {node entry : Schema γ} {layer : Layer γ}
    {entries : List (String × Schema γ)} {fields : Json.Fields} {name : String} {value : Json}
    {filled supplied : VendorOutcome} (seen : node.payload.fluent? = some layer)
    (isObject : layer.kind = .object entries) (distinct : (Table.keys entries).Nodup)
    (mem : (name, entry) ∈ entries) (leads : DefaultsTo scope value entry)
    (nodup : (Table.keys fields).Nodup) (absent : Table.get? fields name = none)
    (isFilled : (validate scope node (.object fields)).value = .ok filled)
    (isSupplied : (validate scope node (.object (Table.put fields name value))).value =
      .ok supplied)
    (wellFormed : ∀ output, filled = .parsed output → output.WellFormed) :
    SameOutcome filled supplied ↔
      ((∃ output, filled = .parsed output) →
        Admits layer.details.constraints (.object (Table.put fields name value)) ∧
          ∃ output, (validate scope entry value).value = .ok (.parsed output) ∧
            value.same output = true) ∧
      ((∃ output, supplied = .parsed output) →
        Admits layer.details.constraints (.object fields)) := by
  obtain ⟨_, clean, comes⟩ := comesTo_of_validate isFilled
  obtain ⟨_, clean', comes'⟩ := comesTo_of_validate isSupplied
  obtain ⟨outputs, gathered, rfl, gathers, isClean⟩ := comes.of_object seen isObject
  obtain ⟨outputs', _, rfl, gathers', isClean'⟩ := comes'.of_object seen isObject
  have parsed (output : Json) :
      filled = .parsed output ↔ clean = true ∧ output = .object outputs := by
    rw [← parsed_iff_of_comesTo comes, isFilled, Except.ok.injEq]
  have parsed' (output : Json) :
      supplied = .parsed output ↔ clean' = true ∧ output = .object outputs' := by
    rw [← parsed_iff_of_comesTo comes', isSupplied, Except.ok.injEq]
  -- The entry is the only one for which the two runs do something else.
  have found := Table.get?_put_self fields name value
  obtain ⟨_, isAbsence⟩ := gathers.exists_absence mem absent
  obtain rfl := leads.absence_eq isAbsence
  obtain ⟨part, cleanPart, comesPart⟩ := gathers'.exists_comesTo mem found
  have start : Beside name fields (Table.put fields name value) :=
    ⟨nodup, Table.nodup_keys_put fields name value nodup,
      fun other ne => (Table.get?_put_of_ne fields value (Ne.symm ne)).symm⟩
  obtain ⟨_, again, beside, isValue, isPart⟩ :=
    gathers.supplied distinct mem isAbsence comesPart start.others absent found start
  obtain ⟨rfl, rfl⟩ := gathers'.comesTo.unique again.comesTo
  have alone := parsed_iff_of_comesTo (comesPart.of_le (Nat.le_succ Walk.nestingLimit))
  have same (wasClean : clean = true) :
      (Json.object outputs).same (.object outputs') = true ↔ value.same part = true :=
    beside.same_iff (wellFormed _ ((parsed _).2 ⟨wasClean, rfl⟩)) isValue isPart
  rw [Bool.and_eq_true] at isClean'
  simp only [sameOutcome_iff parsed parsed', parsed, parsed', alone, exists_and_left, exists_eq,
    exists_eq_left, and_true, and_assoc]
  refine and_congr (forall_congr' fun wasClean => ?_) (forall_congr' fun wasClean' => ?_)
  · obtain ⟨wasGathered, -⟩ := isClean.1 wasClean
    rw [isClean', same wasClean, and_iff_right wasGathered]
    exact and_assoc.trans and_left_comm
  · obtain ⟨⟨wasGathered, -⟩, -⟩ := isClean'.1 wasClean'
    rw [isClean, and_iff_right wasGathered]

/-- A text with a default, in layers. -/
def textOr (around : Schema Empty → Kind Empty (Schema Empty)) : Schema Empty :=
  Call.plainNode 1 (around (Call.plainNode 2 (.defaulted (Call.plainNode 3 .string) (.string "x"))))

/-- An object with a text that has a default. -/
def textObject (around : Schema Empty → Kind Empty (Schema Empty)) : Schema Empty :=
  Call.plainNode 0 (.object [("k", textOr around)])

/-- A default in a nullable layer may as well be supplied. -/
theorem nullableText_supplied : ∃ filled supplied,
    (validate slotless (textObject .nullable) (.object [])).value = .ok filled ∧
      (validate slotless (textObject .nullable) (.object [("k", .string "x")])).value =
        .ok supplied ∧ SameOutcome filled supplied := by
  have seen : (textObject .nullable).payload.fluent? =
      some ⟨.object [("k", textOr .nullable)], {}⟩ := rfl
  have nodup : (Table.keys ([] : Json.Fields)).Nodup := List.nodup_nil
  have leads : DefaultsTo slotless (.string "x") (textOr .nullable) :=
    .nullable rfl rfl (.here rfl rfl)
  have filled : (validate slotless (textObject .nullable) (.object [])).value =
      .ok (.parsed (.object [("k", .string "x")])) := rfl
  have accepts : (validate slotless (textOr .nullable) (.string "x")).value =
      .ok (.parsed (.string "x")) := rfl
  refine ⟨_, _, filled, rfl, ?_⟩
  refine (sameOutcome_supplied_iff seen rfl (List.nodup_singleton _) (.head _) leads
    nodup rfl filled rfl ?_).2 ⟨fun _ => ?_, fun _ => admits_empty _⟩
  · rintro _ ⟨⟩
    simp [Json.WellFormed, Json.WellFormedFields]
  · exact ⟨admits_empty _, _, accepts, by simp [Json.same]⟩

/-- A transformation of the text is only applied if the text is supplied. -/
theorem transformedText_differs :
    (validate slotless (textObject (.transformed · fun text => .object [("wrapped", text)]))
        (.object [])).value = .ok (.parsed (.object [("k", .string "x")])) ∧
      (validate slotless (textObject (.transformed · fun text => .object [("wrapped", text)]))
        (.object [("k", .string "x")])).value =
          .ok (.parsed (.object [("k", .object [("wrapped", .string "x")])])) :=
  ⟨rfl, rfl⟩

end SchemaBridge.Fluent
