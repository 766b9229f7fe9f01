import Mathlib.Data.List.Forall2
import SchemaBridge.Proofs.Fluent.Grants

/-!
# Data that the validator passes

What a run of the validator without an issue says about the data, told without the run: kind by
kind, in terms of the parts of the data and of the nodes for them. The description relates the data
to the output, since the members of a set are compared by their outputs. It follows the layers of a
schema as deep as the validator does, so it is well-founded on recursive schemas as well.

## Main definitions

* `Fluent.Admits` : constraints of one layer admit a value.
* `Fluent.Allows` : a kind allows data, if its parts are passed.
* `Fluent.Passes` : a node passes data with an output.

## Main results

* `Fluent.passes_of_validate` : data that the validator parses is passed.
-/

namespace SchemaBridge.Fluent

variable {γ : Type}

/-- The constraints of one layer admit a value. On anything with a size, a length stands in for a
bound that is not set. -/
def Admits (c : Constraints) : Json → Prop
  | .number n =>
    (∀ bound ∈ c.min, n.toBinary64.lt bound = false) ∧
      ∀ bound ∈ c.max, bound.lt n.toBinary64 = false
  | data => ∀ count unit, Walk.size? data = some (count, unit) →
    (∀ bound ∈ c.min.or (c.minLength.map .ofNat), (Binary64.ofNat count).lt bound = false) ∧
      ∀ bound ∈ c.max.or (c.maxLength.map .ofNat), bound.lt (Binary64.ofNat count) = false

/-! ### Parts -/

/-- The items of an array have these outputs, each according to its position. -/
inductive Items (check : Nat → Json → Json → Prop) : Nat → List Json → List Json → Prop where
  | nil (i : Nat) : Items check i [] []
  | cons {i : Nat} {value output : Json} {values outputs : List Json}
      (first : check i value output) (rest : Items check (i + 1) values outputs) :
      Items check i (value :: values) (output :: outputs)

/-- No output is among those before it, nor among `seen`. -/
def NoRepeat : List Json → List Json → Prop
  | _, [] => True
  | seen, output :: rest => Json.among seen output = false ∧ NoRepeat (seen ++ [output]) rest

/-- The outputs of the entries of an object schema are put into a table, which is the output in the
end. -/
inductive Properties (check : Schema γ → Json → Json → Prop)
    (absence : Schema γ → Except VendorError Absence) (data : Json.Fields) :
    List (String × Schema γ) → Json.Fields → Json.Fields → Prop where
  | nil (output : Json.Fields) : Properties check absence data [] output output
  | present {name : String} {node : Schema γ} {rest : List (String × Schema γ)} {value part : Json}
      {before after : Json.Fields} (found : Table.get? data name = some value)
      (passed : check node value part)
      (others : Properties check absence data rest (Table.put before name part) after) :
      Properties check absence data ((name, node) :: rest) before after
  | skipped {name : String} {node : Schema γ} {rest : List (String × Schema γ)}
      {before after : Json.Fields} (absent : Table.get? data name = none)
      (skip : absence node = .ok .skip) (others : Properties check absence data rest before after) :
      Properties check absence data ((name, node) :: rest) before after
  | filled {name : String} {node : Schema γ} {rest : List (String × Schema γ)} {value : Json}
      {before after : Json.Fields} (absent : Table.get? data name = none)
      (fill : absence node = .ok (.fill value))
      (others : Properties check absence data rest (Table.put before name value) after) :
      Properties check absence data ((name, node) :: rest) before after

/-- An entry of a record has this output. -/
def Entry (key value : Json → Json → Prop) (entry output : String × Json) : Prop :=
  entry.1 = output.1 ∧ (∃ name, key (.string entry.1) name) ∧ value entry.2 output.2

/-! ### Kinds and nodes -/

/-- A kind allows data with an output, if its parts are passed as `check` says. -/
def Allows (scope : Scope γ) (check : Schema γ → Json → Json → Prop)
    (absence : Schema γ → Except VendorError Absence) (kind : Kind γ (Schema γ))
    (data output : Json) : Prop :=
  match kind with
  | .string | .date => data.isString = true ∧ output = data
  | .number => data.isNumber = true ∧ output = data
  | .boolean => data.isBool = true ∧ output = data
  | .null => data.isNull = true ∧ output = data
  | .bigint => data.isInteger = true ∧ output = data
  | .undefined | .void | .never => False
  | .any | .unknown | .symbol | .function => output = data
  | .literal value => data.same value = true ∧ output = data
  | .enumeration values => Json.among values data = true ∧ output = data
  | .instanceOf className =>
    (if className = "Date" then data.isString else data.isObject) = true ∧ output = data
  | .object entries => ∃ fields outputs, data = .object fields ∧ output = .object outputs ∧
    Properties check absence fields entries fields outputs
  | .array element => ∃ values outputs, data = .array values ∧ output = .array outputs ∧
    Items (fun _ => check element) 0 values outputs
  | .tuple nodes rest => ∃ values outputs, data = .array values ∧ output = .array outputs ∧
    nodes.length ≤ values.length ∧ (rest = none → values.length ≤ nodes.length) ∧
      Items (fun i value output => match nodes[i]?.or rest with
        | some node => check node value output
        | none => output = value) 0 values outputs
  | .set element => ∃ values outputs, data = .array values ∧ output = .array outputs ∧
    Items (fun _ => check element) 0 values outputs ∧ NoRepeat [] outputs
  | .record key value | .map key value => ∃ fields outputs, data = .object fields ∧
    output = .object outputs ∧ List.Forall₂ (Entry (check key) (check value)) fields outputs
  | .union options => ∃ option ∈ options, check option data output
  | .intersection parts => (∀ part ∈ parts, ∃ output, check part data output) ∧ output = data
  | .promise inner | .optional inner | .branded inner _ | .defaulted inner _ =>
    check inner data output
  | .nullable inner => data = .null ∧ output = .null ∨ check inner data output
  | .caught inner fallback => check inner data output ∨ output = fallback
  | .refined inner _ holds => check inner data output ∧ holds output = true
  | .transformed inner apply => ∃ before, check inner data before ∧ output = apply before
  | .deferred target => ∃ inner, Walk.targetOf scope target = .ok inner ∧ check inner data output

/-- A node passes data with an output, looking at this many nested layers. A node of another vendor
passes everything. -/
def Passes (scope : Scope γ) : Nat → Schema γ → Json → Json → Prop
  | 0, _, _, _ => False
  | room + 1, node, data, output =>
    match node.payload.fluent? with
    | none => output = data
    | some layer =>
      Allows scope (Passes scope room) (Walk.absence scope Walk.nestingLimit) layer.kind data
        output ∧
        Admits layer.details.constraints data

namespace Walk

/-! ### What the validator grants -/

theorem grants_bound {x : Option Binary64} {message : Binary64 → String} {P : Unit → Prop}
    {rest : WalkM Unit} (h : Grants rest fun a => x = none → P a) :
    Grants (do
      if let some bound := x then complain (message bound)
      rest) P := by
  cases x with
  | none => exact h.mono fun _ granted => granted rfl
  | some bound =>
    exact (grants_complain (P := fun _ => False) _).bind fun _ =>
      h.mono fun _ _ impossible => impossible.elim

theorem grants_lastBound {x : Option Binary64} {message : Binary64 → String} {P : Unit → Prop}
    (h : x = none → P ()) :
    Grants (do
      if let some bound := x then complain (message bound)) P := by
  cases x with
  | none => exact grants_pure (h rfl)
  | some bound => exact grants_complain _

/-- A bound that is not broken. -/
private theorem filter_eq_none {x : Option Binary64} {breaks : Binary64 → Bool}
    (h : x.filter breaks = none) : ∀ bound ∈ x, breaks bound = false := by
  intro bound mem
  simpa using Option.filter_eq_none_iff.1 h bound mem

theorem grants_constraints (c : Constraints) (data : Json) :
    Grants (constraints c data) fun _ => Admits c data := by
  cases data with
  | number n =>
    refine grants_bound (grants_lastBound fun noMax noMin => ?_)
    exact ⟨filter_eq_none noMin, filter_eq_none noMax⟩
  | string | array | object =>
    refine grants_bound (grants_lastBound fun noMax noMin => ?_)
    rintro count unit ⟨⟩
    exact ⟨filter_eq_none noMin, filter_eq_none noMax⟩
  | null | bool =>
    refine grants_pure ?_
    rintro count unit ⟨⟩

/-! ### Parts -/

theorem grants_items {check : Nat → Json → WalkM Json} {C : Nat → Json → Json → Prop}
    (h : ∀ i value, Grants (check i value) (C i value)) (values : List Json) (i : Nat) :
    Grants (items check i values) (Items C i values) := by
  induction values generalizing i with
  | nil => exact grants_pure (.nil i)
  | cons value rest ih =>
    refine ((h i value).within (.index i)).bind fun output => ?_
    refine (ih (i + 1)).bind fun outputs => ?_
    exact grants_pure fun passed first => .cons first passed

theorem grants_members {check : Json → WalkM Json} {C : Json → Json → Prop}
    (h : ∀ value, Grants (check value) (C value)) (values seen : List Json) (i : Nat) :
    Grants (members check seen i values) fun outputs =>
      Items (fun _ => C) i values outputs ∧ NoRepeat seen outputs := by
  induction values generalizing seen i with
  | nil => exact grants_pure ⟨.nil i, trivial⟩
  | cons value rest ih =>
    refine ((h value).within (.index i)).bind fun output => ?_
    cases repeated : Json.among seen output with
    | true =>
      refine ((grants_complain (P := fun _ => False) _).within (.index i)).bind fun _ => ?_
      refine (ih (seen ++ [output]) (i + 1)).bind fun outputs => ?_
      exact grants_pure fun _ impossible => impossible.elim
    | false =>
      refine (ih (seen ++ [output]) (i + 1)).bind fun outputs => ?_
      exact grants_pure fun passed first => ⟨.cons first passed.1, repeated, passed.2⟩

theorem grants_entries {key value : Json → WalkM Json} {K V : Json → Json → Prop}
    (hk : ∀ data, Grants (key data) (K data)) (hv : ∀ data, Grants (value data) (V data))
    (fields : Json.Fields) :
    Grants (entries key value fields) (List.Forall₂ (Entry K V) fields) := by
  induction fields with
  | nil => exact grants_pure .nil
  | cons first rest ih =>
    obtain ⟨name, data⟩ := first
    have inside : Grants (do
        let _ ← key (.string name)
        value data) fun output => (∃ name', K (.string name) name') ∧ V data output :=
      (hk _).bind fun name' => (hv data).mono fun output passed named => ⟨⟨name', named⟩, passed⟩
    refine (inside.within (.key name)).bind fun output => ?_
    refine ih.bind fun outputs => ?_
    exact grants_pure fun passed first => .cons ⟨rfl, first.1, first.2⟩ passed

theorem grants_properties {check : Schema γ → Json → WalkM Json}
    {C : Schema γ → Json → Json → Prop} {absence : Schema γ → Except VendorError Absence}
    (h : ∀ node data, Grants (check node data) (C node data)) (data : Json.Fields)
    (nodes : List (String × Schema γ)) (output : Json.Fields) :
    Grants (properties check absence data nodes output)
      (Properties C absence data nodes output) := by
  induction nodes generalizing output with
  | nil => exact grants_pure (.nil output)
  | cons first rest ih =>
    obtain ⟨name, node⟩ := first
    rw [properties]
    cases found : Table.get? data name with
    | some value =>
      refine ((h node value).within (.key name)).bind fun part => ?_
      exact (ih _).mono fun after others passed => .present found passed others
    | none =>
      refine (grants_lift (P := fun a => absence node = .ok a) fun a given => given).bind
        fun a => ?_
      cases a with
      | skip => exact (ih output).mono fun after others skip => .skipped found skip others
      | fill value => exact (ih _).mono fun after others fill => .filled found fill others
      | missing =>
        refine ((grants_complain (P := fun _ => False) "required").within (.key name)).bind
          fun _ => ?_
        exact (ih output).mono fun _ _ impossible => impossible.elim

theorem grants_firstOf {check : Schema γ → WalkM Json} {C : Schema γ → Json → Prop}
    (h : ∀ node, Grants (check node) (C node)) (options : List (Schema γ)) :
    Grants (firstOf check options) fun result => ∀ output, result = some output →
      ∃ option ∈ options, C option output := by
  induction options with
  | nil => exact grants_pure nofun
  | cons option rest ih =>
    refine (h option).attempt.bind fun result => ?_
    cases result with
    | some output =>
      refine grants_pure fun passed _ same => ?_
      obtain rfl := Option.some.inj same
      exact ⟨option, List.mem_cons_self, passed output rfl⟩
    | none =>
      refine ih.mono fun result passed _ output same => ?_
      obtain ⟨other, mem, passed⟩ := passed output same
      exact ⟨other, List.mem_cons_of_mem _ mem, passed⟩

theorem grants_tuple {check : Schema γ → Json → WalkM Json} {C : Schema γ → Json → Json → Prop}
    (h : ∀ node data, Grants (check node data) (C node data)) (nodes : List (Schema γ))
    (rest : Option (Schema γ)) (values : List Json) :
    Grants (tuple check nodes rest (.array values) values) fun output => ∃ outputs,
      output = .array outputs ∧ nodes.length ≤ values.length ∧
        (rest = none → values.length ≤ nodes.length) ∧
        Items (fun i value output => match nodes[i]?.or rest with
          | some node => C node value output
          | none => output = value) 0 values outputs := by
  unfold tuple
  by_cases few : values.length < nodes.length
  · rw [if_pos few]
    exact (grants_complain (P := fun _ => False) _).bind fun _ =>
      grants_pure fun impossible => impossible.elim
  · rw [if_neg few]
    by_cases many : (rest.isNone && decide (nodes.length < values.length)) = true
    · rw [if_pos many]
      exact (grants_complain (P := fun _ => False) _).bind fun _ =>
        grants_pure fun impossible => impossible.elim
    · rw [if_neg many]
      have position (i : Nat) (value : Json) : Grants
          (match nodes[i]?.or rest with
            | some node => check node value
            | none => return value) fun output => match nodes[i]?.or rest with
              | some node => C node value output
              | none => output = value := by
        cases nodes[i]?.or rest with
        | some node => exact h node value
        | none => exact grants_pure rfl
      refine (grants_items position values 0).bind fun outputs => ?_
      refine grants_pure fun passed => ⟨outputs, rfl, Nat.le_of_not_lt few, ?_, passed⟩
      rintro rfl
      simpa using many

theorem grants_intersection {check : Schema γ → WalkM Json} {C : Schema γ → Json → Prop}
    (h : ∀ node, Grants (check node) (C node)) (parts : List (Schema γ)) :
    Grants (parts.forM fun part => discard (check part)) fun _ =>
      ∀ part ∈ parts, ∃ output, C part output := by
  induction parts with
  | nil => exact grants_pure (by simp)
  | cons part rest ih =>
    have first : Grants (discard (check part)) fun _ => ∃ output, C part output :=
      (h part).bind fun output => grants_pure fun passed => ⟨output, passed⟩
    refine first.bind fun _ => ?_
    exact ih.mono fun _ others passed => List.forall_mem_cons.2 ⟨passed, others⟩

/-! ### Kinds and nodes -/

/-- Work on the items of the data, which is an issue for anything else than an array. -/
theorem grants_array {data : Json} {work : List Json → WalkM (List Json)}
    {P : List Json → List Json → Prop} (h : ∀ values, Grants (work values) (P values)) :
    Grants (match data.asArray? with
      | some values => do return .array (← work values)
      | none => require false "array" data) fun output =>
        ∃ values outputs, data = .array values ∧ output = .array outputs ∧ P values outputs := by
  cases data with
  | array values =>
    exact (h values).bind fun outputs => grants_pure fun passed =>
      ⟨values, outputs, rfl, rfl, passed⟩
  | null | bool | number | string | object => exact grants_refuse

/-- Work on the entries of the data, which is an issue for anything else than an object. -/
theorem grants_object {data : Json} {work : Json.Fields → WalkM Json.Fields}
    {P : Json.Fields → Json.Fields → Prop} (h : ∀ fields, Grants (work fields) (P fields)) :
    Grants (match data.asObject? with
      | some fields => do return .object (← work fields)
      | none => require false "object" data) fun output =>
        ∃ fields outputs, data = .object fields ∧ output = .object outputs ∧ P fields outputs := by
  cases data with
  | object fields =>
    exact (h fields).bind fun outputs => grants_pure fun passed =>
      ⟨fields, outputs, rfl, rfl, passed⟩
  | null | bool | number | string | array => exact grants_refuse

theorem grants_kind (scope : Scope γ) {check : Schema γ → Json → WalkM Json}
    {C : Schema γ → Json → Json → Prop} (h : ∀ node data, Grants (check node data) (C node data))
    (kind : Kind γ (Schema γ)) (data : Json) :
    Grants (Walk.kind scope check kind data)
      (Allows scope C (absence scope nestingLimit) kind data) := by
  cases kind with
  | string | date | number | boolean | null | bigint =>
    exact grants_require fun holds => ⟨holds, rfl⟩
  | undefined | void => exact grants_refuse
  | never => exact (grants_complain (P := fun _ => False) _).bind fun _ => grants_pure nofun
  | any | unknown | symbol | function => exact grants_pure rfl
  | literal | enumeration => exact grants_checked fun holds => ⟨by simpa using holds, rfl⟩
  | instanceOf className =>
    rw [Walk.kind]
    by_cases isDate : className = "Date"
    · rw [if_pos isDate]
      refine grants_require fun holds => ⟨?_, rfl⟩
      rwa [if_pos isDate]
    · rw [if_neg isDate]
      refine grants_checked fun holds => ⟨?_, rfl⟩
      rw [if_neg isDate]
      simpa using holds
  | object entries => exact grants_object fun fields => grants_properties h fields entries fields
  | array element => exact grants_array fun values => grants_items (fun _ => h element) values 0
  | set element => exact grants_array fun values => grants_members (h element) values [] 0
  | record key value | map key value =>
    exact grants_object fun fields => grants_entries (h key) (h value) fields
  | tuple nodes rest =>
    cases data with
    | array values =>
      refine (grants_tuple h nodes rest values).mono fun output passed => ?_
      obtain ⟨outputs, rfl, passed⟩ := passed
      exact ⟨values, outputs, rfl, rfl, passed⟩
    | null | bool | number | string | object => exact grants_refuse
  | union options =>
    refine (grants_firstOf (fun option => h option data) options).bind fun result => ?_
    cases result with
    | some output => exact grants_pure fun passed => passed output rfl
    | none => exact (grants_complain (P := fun _ => False) _).bind fun _ =>
        grants_pure fun impossible => impossible.elim
  | intersection parts =>
    refine (grants_intersection (fun part => h part data) parts).bind fun _ => ?_
    exact grants_pure fun passed => ⟨passed, rfl⟩
  | promise inner | optional inner | branded inner | defaulted inner => exact h inner data
  | nullable inner =>
    cases data with
    | null => exact grants_pure (.inl ⟨rfl, rfl⟩)
    | bool | number | string | array | object => exact (h inner _).mono fun _ passed => .inr passed
  | caught inner fallback =>
    refine (h inner data).attempt.bind fun result => grants_pure fun passed => ?_
    cases result with
    | some output => exact .inl (passed output rfl)
    | none => exact .inr rfl
  | refined inner message holds =>
    refine (h inner data).noting.bind fun result => grants_checked fun sound passed => ?_
    rw [passed.1] at sound
    exact ⟨passed.2, by simpa using sound⟩
  | transformed inner apply =>
    refine (h inner data).noting.bind fun result => grants_pure fun passed => ?_
    exact ⟨result.1, passed.2, if_pos passed.1⟩
  | deferred target =>
    refine (grants_lift (P := fun inner => targetOf scope target = .ok inner)
      fun _ given => given).bind fun inner => ?_
    exact (h inner data).mono fun output passed given => ⟨inner, given, passed⟩

/-- Every node grants that it passes the data. -/
theorem grants_node (scope : Scope γ) (room : Nat) (schema : Schema γ) (data : Json) :
    Grants (Walk.node scope room schema data) (Passes scope room schema data) := by
  induction room generalizing schema data with
  | zero => exact grants_throw tooDeep
  | succ room ih =>
    rw [Walk.node]
    cases seen : schema.payload.fluent? with
    | none =>
      refine (grants_note _).bind fun _ => grants_pure fun _ => ?_
      rw [Passes, seen]
    | some layer =>
      refine (grants_kind scope ih layer.kind data).noting.bind fun result => ?_
      obtain ⟨output, clean⟩ := result
      cases clean with
      | true =>
        refine (grants_constraints layer.details.constraints data).bind fun _ => ?_
        refine grants_pure fun admits passed => ?_
        rw [Passes, seen]
        exact ⟨passed.2, admits⟩
      | false => exact grants_pure fun passed => absurd passed.1 Bool.false_ne_true

end Walk

/-- The outcome of the validator, by its run. -/
theorem value_validate {scope : Scope γ} {node : Schema γ} {data : Json}
    {result : Except VendorError Json} {t : Walk}
    (runs : Walk.node scope (Walk.nestingLimit + 1) node data Walk.start = (result, t)) :
    (validate scope node data).value = result.map fun output =>
      if t.issues.isEmpty then .parsed output else .issues t.issues.reverse := by
  rw [validate]
  have same : (Walk.node scope (Walk.nestingLimit + 1) node data).run.run Walk.start =
      (result, t) := runs
  rw [same]

/-- Data that the validator parses is passed. -/
theorem passes_of_validate {scope : Scope γ} {node : Schema γ} {data output : Json}
    (h : (validate scope node data).value = .ok (.parsed output)) :
    Passes scope (Walk.nestingLimit + 1) node data output := by
  rcases runs : Walk.node scope (Walk.nestingLimit + 1) node data Walk.start with ⟨result, t⟩
  rw [value_validate runs] at h
  cases result with
  | error => cases h
  | ok value =>
    have parsed := Except.ok.inj h
    split at parsed
    · rename_i none
      obtain rfl := VendorOutcome.parsed.inj parsed
      have unchanged : t.issues.length = Walk.start.issues.length := by
        rw [List.isEmpty_iff.1 none]
        rfl
      exact (Walk.grants_node scope _ node data Walk.start _ t runs).2 unchanged
    · cases parsed

end SchemaBridge.Fluent
