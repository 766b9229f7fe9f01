import SchemaBridge.Proofs.Compile.Required
import SchemaBridge.Proofs.Fluent.Passing
import SchemaBridge.Proofs.Json.Equality
import SchemaBridge.Proofs.Vendors
import SchemaBridge.Validation.Run

/-!
# Where the validator reports issues

The validator keeps a trail of steps to the value at hand. It steps on before it looks at a part of
the value and back afterwards, whether or not an error ends the work on the part. So work on a value
leaves the trail as it was, and every issue that it reports has the steps of the trail in front of
steps that lead into that value. From the whole data on, with an empty trail, every issue has a path
that leads to a value of the data; only an entry that is required leads to a key that is not there.

Paths are followed in data without repeated keys: an object has one value for each of them.

## Main definitions

* `Json.part?`, `Json.valueAt?` : the value that a step leads to, and a path.
* `Json.Concerns` : a message with a path is about the data.
* `Fluent.Walk.ReportsOn` : work that leaves the trail as it was and reports issues of a value.

## Main results

* `Fluent.Walk.ReportsOn.bind`, `Fluent.Walk.ReportsOn.within` : composite work.
* `Fluent.Walk.reportsOn_node` : the validator reports on the data.
* `Fluent.concerns_report`, `Fluent.issues_concern_data` : the issues that callers receive.
-/

namespace SchemaBridge

/-! ### Paths into data -/

namespace Json

/-- The part of a value that a step leads to. -/
def part? : Json → PathStep → Option Json
  | .array items, .index i => items[i]?
  | .object fields, .key name => Table.get? fields name
  | _, _ => none

/-- The value that a path leads to. -/
def valueAt? : Json → List PathStep → Option Json
  | data, [] => some data
  | data, step :: rest => (data.part? step).bind fun part => part.valueAt? rest

/-- The message is about the data: its path leads to a value of the data, or it says that an entry
is required, and the path leads to an object of the data and on to a key that the object does not
have. -/
def Concerns (data : Json) (message : String) (path : List PathStep) : Prop :=
  (data.valueAt? path).isSome = true ∨ message = "required" ∧ ∃ before name fields,
    path = before ++ [.key name] ∧ data.valueAt? before = some (.object fields) ∧
      Table.get? fields name = none

variable {data value : Json} {message : String} {path : List PathStep} {step : PathStep}

theorem concerns_here (data : Json) (message : String) : data.Concerns message [] := .inl rfl

theorem concerns_missing {fields : Fields} {name : String}
    (absent : Table.get? fields name = none) : (object fields).Concerns "required" [.key name] :=
  .inr ⟨rfl, [], name, fields, rfl, rfl, absent⟩

theorem valueAt?_cons (part : data.part? step = some value) (path : List PathStep) :
    data.valueAt? (step :: path) = value.valueAt? path := by
  rw [valueAt?, part, Option.bind_some]

/-- What is about a part is about the whole. -/
theorem Concerns.inside (h : value.Concerns message path) (part : data.part? step = some value) :
    data.Concerns message (step :: path) := by
  rcases h with leads | ⟨required, before, name, fields, rfl, leads, absent⟩
  · exact .inl (by rwa [valueAt?_cons part])
  · exact .inr ⟨required, step :: before, name, fields, rfl,
      (valueAt?_cons part before).trans leads, absent⟩

/-- A string has no parts. -/
theorem Concerns.of_string {text : String} (h : (string text).Concerns message path) :
    path = [] := by
  cases path with
  | nil => rfl
  | cons step rest =>
    rcases h with leads | ⟨-, before, name, fields, same, leads, -⟩
    · cases leads
    · cases before <;> cases leads

theorem WellFormed.part (h : data.WellFormed) (part : data.part? step = some value) :
    value.WellFormed := by
  cases data with
  | array items =>
    cases step with
    | index i =>
      rw [WellFormed] at h
      exact h.of_mem (List.mem_of_getElem? part)
    | key => cases part
  | object fields =>
    cases step with
    | index => cases part
    | key name =>
      rw [WellFormed] at h
      exact h.2.of_mem (Table.mem_of_get? part)
  | null | bool | number | string => cases part

end Json

/-- An issue is about the data. -/
def Issue.Concerns (issue : Issue) (data : Json) : Prop :=
  data.Concerns issue.message (issue.path.getD [])

namespace Fluent

variable {γ : Type}

namespace Walk

open Stateful

variable {α β : Type} {work : WalkM α} {data value : Json} {trail : List PathStep} {step : PathStep}

/-- The issue is about the value at the end of the trail. -/
def Located (trail : List PathStep) (data : Json) (issue : VendorIssue) : Prop :=
  ∃ path, issue.path = some (.segments (trail.reverse ++ path)) ∧ data.Concerns issue.message path

/-- Work leaves the trail as it was and takes no issue back, and the issues that it adds are about
the value at the end of the trail. -/
def ReportsOn (work : WalkM α) (data : Json) : Prop :=
  ∀ s, (work s).2.trail = s.trail ∧ (data.WellFormed → ∃ added,
    (work s).2.issues = added ++ s.issues ∧ ∀ issue ∈ added, Located s.trail data issue)

theorem Located.inside {issue : VendorIssue} (h : Located (step :: trail) value issue)
    (part : data.part? step = some value) : Located trail data issue := by
  obtain ⟨path, isPath, concerns⟩ := h
  refine ⟨step :: path, ?_, concerns.inside part⟩
  rw [isPath, List.reverse_cons, List.append_assoc, List.singleton_append]

/-- What is about a key is about the value of that key, since it cannot lead on. -/
theorem Located.of_string {issue : VendorIssue} {text : String}
    (h : Located trail (.string text) issue) : Located trail data issue := by
  obtain ⟨path, isPath, concerns⟩ := h
  obtain rfl := concerns.of_string
  exact ⟨[], isPath, data.concerns_here _⟩

/-! ### Steps -/

/-- Work that changes neither the trail nor the issues. -/
theorem reportsOn_of_silent
    (h : ∀ s, (work s).2.trail = s.trail ∧ (work s).2.issues = s.issues) : ReportsOn work data :=
  fun s => ⟨(h s).1, fun _ => ⟨[], (h s).2, nofun⟩⟩

theorem reportsOn_pure (a : α) : ReportsOn (pure a) data := reportsOn_of_silent fun _ => ⟨rfl, rfl⟩

theorem reportsOn_get : ReportsOn (get : WalkM Walk) data := reportsOn_of_silent fun _ => ⟨rfl, rfl⟩

theorem reportsOn_throw (error : VendorError) : ReportsOn (throw error : WalkM α) data :=
  reportsOn_of_silent fun _ => ⟨rfl, rfl⟩

theorem reportsOn_note (event : Event) : ReportsOn (note event) data :=
  reportsOn_of_silent fun _ => ⟨rfl, rfl⟩

theorem reportsOn_lift (x : Except VendorError α) : ReportsOn (liftM x : WalkM α) data := by
  cases x with
  | error error => exact reportsOn_throw error
  | ok a => exact reportsOn_pure a

/-- Work whose issues are dropped. -/
theorem reportsOn_attempt (work : WalkM α) : ReportsOn (attempt work) data :=
  reportsOn_of_silent fun _ => ⟨rfl, rfl⟩

theorem reportsOn_complain (message : String) : ReportsOn (complain message) data := by
  refine fun s => ⟨rfl, fun _ => ⟨[_], rfl, fun issue mem => ?_⟩⟩
  obtain rfl := List.mem_singleton.1 mem
  exact ⟨[], by rw [List.append_nil], data.concerns_here message⟩

/-! ### Composite work -/

theorem ReportsOn.bind {after : α → WalkM β} (h : ReportsOn work data)
    (rest : ∀ a, ReportsOn (after a) data) : ReportsOn (work >>= after) data := by
  intro s
  obtain ⟨back, reports⟩ := h s
  rcases first : work s with ⟨error | a, t⟩
  · rw [bind_of_error after first]
    rw [first] at back reports
    exact ⟨back, reports⟩
  · rw [bind_of_ok after first]
    rw [first] at back reports
    obtain ⟨back', reports'⟩ := rest a t
    refine ⟨back'.trans back, fun wellFormed => ?_⟩
    obtain ⟨added, issues, located⟩ := reports wellFormed
    obtain ⟨added', issues', located'⟩ := reports' wellFormed
    rw [back] at located'
    refine ⟨added' ++ added, by rw [issues', issues, List.append_assoc], fun issue mem => ?_⟩
    exact (List.mem_append.1 mem).elim (located' issue) (located issue)

/-- Work after an issue that is reported in some case. -/
theorem reportsOn_checked {broken : Bool} {message : String} {rest : WalkM α}
    (h : ReportsOn rest data) :
    ReportsOn (do
      if broken then complain message
      rest) data := by
  cases broken with
  | false => exact h
  | true => exact (reportsOn_complain message).bind fun _ => h

theorem reportsOn_require (holds : Bool) (expected : String) (value : Json) :
    ReportsOn (require holds expected value) data :=
  reportsOn_checked (reportsOn_pure value)

theorem ReportsOn.noting (h : ReportsOn work data) : ReportsOn (Walk.noting work) data :=
  reportsOn_get.bind fun _ => h.bind fun _ => reportsOn_get.bind fun _ => reportsOn_pure _

/-- Work on a part of the value. -/
theorem ReportsOn.within (h : ReportsOn work value)
    (part : data.WellFormed → data.part? step = some value) :
    ReportsOn (Walk.within step work) data := by
  intro s
  let stepped : Walk := { s with trail := step :: s.trail }
  obtain ⟨back, reports⟩ := h stepped
  have result : (Walk.within step work s).2 =
      { (work stepped).2 with trail := (work stepped).2.trail.tail } := rfl
  rw [result]
  refine ⟨congrArg List.tail back, fun wellFormed => ?_⟩
  obtain ⟨added, issues, located⟩ := reports (wellFormed.part (part wellFormed))
  exact ⟨added, issues, fun issue mem => (located issue mem).inside (part wellFormed)⟩

/-- A required entry that is not there. -/
theorem reportsOn_missing {fields : Json.Fields} {name : String}
    (absent : Table.get? fields name = none) :
    ReportsOn (Walk.within (.key name) (complain "required")) (.object fields) := by
  intro s
  refine ⟨rfl, fun _ => ⟨[_], rfl, fun issue mem => ?_⟩⟩
  obtain rfl := List.mem_singleton.1 mem
  refine ⟨[.key name], ?_, Json.concerns_missing absent⟩
  exact congrArg (fun steps => some (VendorPath.segments steps)) List.reverse_cons

/-! ### Constraints and parts -/

/-- A bound that is set is complained about, and then comes the rest. -/
private theorem reportsOn_bound {x : Option Binary64} {message : Binary64 → String}
    {rest : WalkM Unit} (h : ReportsOn rest data) :
    ReportsOn (do
      if let some bound := x then complain (message bound)
      rest) data := by
  cases x with
  | none => exact h
  | some bound => exact (reportsOn_complain _).bind fun _ => h

private theorem reportsOn_lastBound {x : Option Binary64} {message : Binary64 → String} :
    ReportsOn (do
      if let some bound := x then complain (message bound)) data := by
  cases x with
  | none => exact reportsOn_pure ()
  | some bound => exact reportsOn_complain _

theorem reportsOn_constraints (c : Constraints) (value : Json) :
    ReportsOn (constraints c value) data := by
  cases value with
  | number | string | array | object => exact reportsOn_bound reportsOn_lastBound
  | null | bool => exact reportsOn_pure ()

private theorem part_of_drop {all rest : List Json} {i : Nat}
    (isRest : all.drop i = value :: rest) :
    (Json.array all).part? (.index i) = some value ∧ all.drop (i + 1) = rest := by
  constructor
  · rw [Json.part?, ← List.head?_drop, isRest, List.head?_cons]
  · rw [← List.tail_drop, isRest, List.tail_cons]

/-- The items from a position on. -/
theorem reportsOn_items {check : Nat → Json → WalkM Json} {all : List Json}
    (h : ∀ i value, ReportsOn (check i value) value) (values : List Json) (i : Nat)
    (isRest : all.drop i = values) : ReportsOn (items check i values) (.array all) := by
  induction values generalizing i with
  | nil => exact reportsOn_pure []
  | cons value rest ih =>
    obtain ⟨isItem, others⟩ := part_of_drop isRest
    refine ((h i value).within fun _ => isItem).bind fun output => ?_
    exact (ih (i + 1) others).bind fun outputs => reportsOn_pure _

theorem reportsOn_members {check : Json → WalkM Json} {all : List Json}
    (h : ∀ value, ReportsOn (check value) value) (values seen : List Json) (i : Nat)
    (isRest : all.drop i = values) : ReportsOn (members check seen i values) (.array all) := by
  induction values generalizing seen i with
  | nil => exact reportsOn_pure []
  | cons value rest ih =>
    obtain ⟨isItem, others⟩ := part_of_drop isRest
    have duplicate (message : String) : ReportsOn (complain message) value :=
      reportsOn_complain message
    refine ((h value).within fun _ => isItem).bind fun output => ?_
    have later := (ih (seen ++ [output]) (i + 1) others).bind fun outputs =>
      reportsOn_pure (output :: outputs)
    cases Json.among seen output with
    | false => exact later
    | true => exact ((duplicate _).within fun _ => isItem).bind fun _ => later

/-- The entries of a record. What is said about a key is said of its value. -/
theorem reportsOn_entries {key value : Json → WalkM Json} {all : Json.Fields}
    (hk : ∀ data, ReportsOn (key data) data) (hv : ∀ data, ReportsOn (value data) data)
    (fields : Json.Fields) (inside : ∀ entry ∈ fields, entry ∈ all) :
    ReportsOn (entries key value fields) (.object all) := by
  induction fields with
  | nil => exact reportsOn_pure []
  | cons first rest ih =>
    obtain ⟨name, data⟩ := first
    obtain ⟨isEntry, others⟩ := List.forall_mem_cons.1 inside
    have onKey : ReportsOn (key (.string name)) data := by
      intro s
      obtain ⟨back, reports⟩ := hk (.string name) s
      refine ⟨back, fun _ => ?_⟩
      obtain ⟨added, issues, located⟩ := reports (by simp [Json.WellFormed])
      exact ⟨added, issues, fun issue mem => (located issue mem).of_string⟩
    refine ((onKey.bind fun _ => hv data).within fun wellFormed => ?_).bind fun output => ?_
    · rw [Json.WellFormed] at wellFormed
      exact Table.get?_of_mem wellFormed.1 isEntry
    · exact (ih others).bind fun outputs => reportsOn_pure _

theorem reportsOn_properties {check : Schema γ → Json → WalkM Json}
    {absence : Schema γ → Except VendorError Absence}
    (h : ∀ node data, ReportsOn (check node data) data) (fields : Json.Fields)
    (nodes : List (String × Schema γ)) (output : Json.Fields) :
    ReportsOn (properties check absence fields nodes output) (.object fields) := by
  induction nodes generalizing output with
  | nil => exact reportsOn_pure output
  | cons first rest ih =>
    obtain ⟨name, node⟩ := first
    rw [properties]
    cases found : Table.get? fields name with
    | some value =>
      have isEntry : (Json.object fields).part? (.key name) = some value := found
      exact ((h node value).within fun _ => isEntry).bind fun _ => ih _
    | none =>
      refine (reportsOn_lift (absence node)).bind fun absent => ?_
      cases absent with
      | skip => exact ih output
      | fill value => exact ih _
      | missing => exact (reportsOn_missing found).bind fun _ => ih output

theorem reportsOn_firstOf (check : Schema γ → WalkM Json) (options : List (Schema γ)) :
    ReportsOn (firstOf check options) data := by
  induction options with
  | nil => exact reportsOn_pure none
  | cons option rest ih =>
    refine (reportsOn_attempt (check option)).bind fun result => ?_
    cases result with
    | some output => exact reportsOn_pure _
    | none => exact ih

theorem reportsOn_tuple {check : Schema γ → Json → WalkM Json}
    (h : ∀ node data, ReportsOn (check node data) data) (nodes : List (Schema γ))
    (rest : Option (Schema γ)) (values : List Json) :
    ReportsOn (tuple check nodes rest (.array values) values) (.array values) := by
  have refused (message : String) : ReportsOn (do
      complain message
      return Json.array values) (.array values) :=
    (reportsOn_complain message).bind fun _ => reportsOn_pure _
  unfold tuple
  split
  · exact refused _
  · split
    · exact refused _
    · refine (reportsOn_items (fun i value => ?_) values 0 rfl).bind fun outputs => reportsOn_pure _
      cases nodes[i]?.or rest with
      | some node => exact h node value
      | none => exact reportsOn_pure value

theorem reportsOn_intersection {check : Schema γ → WalkM Json}
    (h : ∀ node, ReportsOn (check node) data) (parts : List (Schema γ)) :
    ReportsOn (parts.forM fun part => discard (check part)) data := by
  induction parts with
  | nil => exact reportsOn_pure ()
  | cons part rest ih =>
    have first : ReportsOn (discard (check part)) data := (h part).bind fun _ => reportsOn_pure ()
    exact first.bind fun _ => ih

/-! ### Kinds and nodes -/

/-- Work on the items of the data, if it is an array. -/
theorem reportsOn_array {work : List Json → WalkM (List Json)}
    (h : ∀ values, ReportsOn (work values) (.array values)) (data : Json) :
    ReportsOn (match data.asArray? with
      | some values => do return .array (← work values)
      | none => require false "array" data) data := by
  cases data with
  | array values => exact (h values).bind fun outputs => reportsOn_pure _
  | null | bool | number | string | object => exact reportsOn_require _ _ _

/-- Work on the entries of the data, if it is an object. -/
theorem reportsOn_object {work : Json.Fields → WalkM Json.Fields}
    (h : ∀ fields, ReportsOn (work fields) (.object fields)) (data : Json) :
    ReportsOn (match data.asObject? with
      | some fields => do return .object (← work fields)
      | none => require false "object" data) data := by
  cases data with
  | object fields => exact (h fields).bind fun outputs => reportsOn_pure _
  | null | bool | number | string | array => exact reportsOn_require _ _ _

theorem reportsOn_kind (scope : Scope γ) {check : Schema γ → Json → WalkM Json}
    (h : ∀ node data, ReportsOn (check node data) data) (kind : Kind γ (Schema γ)) (data : Json) :
    ReportsOn (Walk.kind scope check kind data) data := by
  cases kind with
  | string | date | number | boolean | null | bigint | undefined | void =>
    exact reportsOn_require _ _ _
  | never => exact (reportsOn_complain _).bind fun _ => reportsOn_pure data
  | any | unknown | symbol | function => exact reportsOn_pure data
  | literal | enumeration => exact reportsOn_checked (reportsOn_pure data)
  | instanceOf className =>
    rw [Walk.kind]
    split
    · exact reportsOn_require _ _ _
    · exact reportsOn_checked (reportsOn_pure data)
  | object entries =>
    exact reportsOn_object (fun fields => reportsOn_properties h fields entries fields) data
  | array element =>
    exact reportsOn_array (fun values => reportsOn_items (fun _ => h element) values 0 rfl) data
  | set element =>
    exact reportsOn_array (fun values => reportsOn_members (h element) values [] 0 rfl) data
  | record key value | map key value =>
    exact reportsOn_object
      (fun fields => reportsOn_entries (h key) (h value) fields fun _ mem => mem) data
  | tuple nodes rest =>
    cases data with
    | array values => exact reportsOn_tuple h nodes rest values
    | null | bool | number | string | object => exact reportsOn_require _ _ _
  | union options =>
    refine (reportsOn_firstOf (fun option => check option data) options).bind fun result => ?_
    cases result with
    | some output => exact reportsOn_pure output
    | none => exact (reportsOn_complain _).bind fun _ => reportsOn_pure data
  | intersection parts =>
    exact (reportsOn_intersection (fun part => h part data) parts).bind fun _ => reportsOn_pure data
  | promise inner | optional inner | branded inner | defaulted inner => exact h inner data
  | nullable inner =>
    cases data with
    | null => exact reportsOn_pure _
    | bool | number | string | array | object => exact h inner _
  | caught inner fallback => exact (reportsOn_attempt _).bind fun result => reportsOn_pure _
  | refined inner message holds =>
    exact (h inner data).noting.bind fun result => reportsOn_checked (reportsOn_pure _)
  | transformed inner apply => exact (h inner data).noting.bind fun result => reportsOn_pure _
  | deferred target => exact (reportsOn_lift _).bind fun inner => h inner data

/-- The validator reports on the data, whatever the schema. -/
theorem reportsOn_node (scope : Scope γ) (room : Nat) (schema : Schema γ) (data : Json) :
    ReportsOn (Walk.node scope room schema data) data := by
  induction room generalizing schema data with
  | zero => exact reportsOn_throw tooDeep
  | succ room ih =>
    rw [Walk.node]
    cases schema.payload.fluent? with
    | none => exact (reportsOn_note _).bind fun _ => reportsOn_pure data
    | some layer =>
      refine (reportsOn_kind scope ih layer.kind data).noting.bind fun result => ?_
      obtain ⟨output, clean⟩ := result
      cases clean with
      | true => exact (reportsOn_constraints _ data).bind fun _ => reportsOn_pure output
      | false => exact reportsOn_pure output

end Walk

/-! ### What callers receive -/

variable {scope : Scope γ} {node : Schema γ} {data : Json}

/-- All issues of the validator are about the data. -/
theorem located_of_validate (wellFormed : data.WellFormed) {issues : List VendorIssue}
    (answer : (validate scope node data).value = .ok (.issues issues)) :
    ∀ issue ∈ issues, Walk.Located [] data issue := by
  rcases runs : Walk.node scope (Walk.nestingLimit + 1) node data Walk.start with ⟨result, t⟩
  rw [value_validate runs] at answer
  cases result with
  | error => cases answer
  | ok output =>
    have listed := Except.ok.inj answer
    split at listed
    · cases listed
    · obtain rfl := VendorOutcome.issues.inj listed
      obtain ⟨-, reports⟩ :=
        Walk.reportsOn_node scope (Walk.nestingLimit + 1) node data Walk.start
      obtain ⟨added, same, located⟩ := reports wellFormed
      rw [runs] at same
      have all : t.issues = added := same.trans (List.append_nil added)
      intro issue mem
      rw [all] at mem
      exact located issue (List.mem_reverse.1 mem)

/-- An issue of the whole value is about the data. -/
theorem concerns_root (data : Json) (message : String) : (Issue.root message).Concerns data :=
  data.concerns_here message

private theorem path_located (message : String) (path : List PathStep) :
    (Issue.located message path).path.getD [] = path := by
  cases path <;> rfl

/-- An issue of the validator stays about the data when it is brought into the form for callers. A
message is only replaced if it is empty, and then it does not say that an entry is required. -/
theorem concerns_issue {reported : VendorIssue} (h : Walk.Located [] data reported) :
    (Validate.issue reported).Concerns data := by
  obtain ⟨path, isPath, concerns⟩ := h
  rw [Validate.issue, isPath]
  dsimp only
  rw [Issue.Concerns, path_located]
  by_cases unexplained : reported.message.isEmpty = true
  · rcases concerns with leads | ⟨required, -⟩
    · exact .inl leads
    · rw [required] at unexplained
      exact absurd unexplained (by decide)
  · rw [if_neg unexplained]
    exact concerns

/-- A failure is about the data if the issues of the validator are; where it has none to show, or an
error, the failure is about the whole value. -/
theorem concerns_report {answer : Except VendorError VendorOutcome}
    (located : ∀ list, answer = .ok (.issues list) → ∀ issue ∈ list, Walk.Located [] data issue)
    {issues : List Issue} (failed : (Validate.report data answer).value = .failure issues) :
    ∀ issue ∈ issues, issue.Concerns data := by
  have ofMessage (message : String) : ∀ issue ∈ [Issue.root message], issue.Concerns data :=
    List.forall_mem_singleton.2 (concerns_root data message)
  rcases answer with error | output | _ | _ | list
  · obtain rfl := ValidationReport.failure.inj failed
    exact ofMessage _
  · cases failed
  · cases failed
  · obtain rfl := ValidationReport.failure.inj failed
    exact ofMessage _
  · cases list with
    | nil =>
      obtain rfl := ValidationReport.failure.inj failed
      exact ofMessage _
    | cons first rest =>
      obtain rfl := ValidationReport.failure.inj failed
      intro issue mem
      obtain ⟨reported, isReported, rfl⟩ := List.mem_map.1 mem
      exact concerns_issue (located _ rfl reported isReported)

/-- A registry leaves the data to the validator of a node that the adapter claims. -/
private theorem value_validate_of_claimed {registry : Registry (Payload γ)}
    (claimed : (registry.resolve node).value = some (adapter scope)) :
    (registry.validate node data).value =
      (Validate.report data (validate scope node data).value).value := by
  rw [Registry.validate, Registry.validateWith, Logged.value_bind, claimed]
  rfl

/-- When a fluent node rejects data, the issues that callers receive are about the data: every path
leads to a value of it, or to a key that is missing where an entry is required. And whatever the
validator looks at on the way, its trail is afterwards what it was before, also after an error. -/
theorem issues_concern_data {registry : Registry (Payload γ)}
    (claimed : (registry.resolve node).value = some (adapter scope))
    (wellFormed : data.WellFormed) :
    (∀ issues, (registry.validate node data).value = .failure issues →
        ∀ issue ∈ issues, issue.Concerns data) ∧
      ∀ (room : Nat) (inner : Schema γ) (part : Json) (walk : Walk),
        (Walk.node scope room inner part walk).2.trail = walk.trail := by
  constructor
  · intro issues failed
    rw [value_validate_of_claimed claimed] at failed
    exact concerns_report (fun _ answer => located_of_validate wellFormed answer) failed
  · intro room inner part walk
    exact (Walk.reportsOn_node scope room inner part walk).1

/-- Orders with a quantity each. -/
def orders : Schema Empty :=
  Call.plainNode 0 (.array (Call.plainNode 1 (.object [("quantity", Call.plainNode 2 .number)])))

/-- The vendors at hand, where no slot is defined. -/
def orderRegistry : Registry (Payload Empty) := .standard ⟨fun _ => none, nofun⟩ .firstMatch

/-- An order with a text for a quantity, and one without a quantity. -/
def badOrders : Json := .array [.object [("quantity", .string "two")], .object []]

/-- The issues of these orders. -/
def badOrderIssues : List Issue :=
  [⟨"expected number, received string", some [.index 0, .key "quantity"]⟩,
    ⟨"required", some [.index 1, .key "quantity"]⟩]

/-- The issues lead to the text, and to the key that is missing in the second order. -/
theorem badOrders_issues :
    (orderRegistry.resolve orders).value = some (adapter ⟨fun _ => none, nofun⟩) ∧
      badOrders.WellFormed ∧
      (orderRegistry.validate orders badOrders).value = .failure badOrderIssues ∧
      ∀ issue ∈ badOrderIssues, issue.Concerns badOrders := by
  have claimed : (orderRegistry.resolve orders).value = some (adapter ⟨fun _ => none, nofun⟩) := rfl
  have wellFormed : badOrders.WellFormed := by
    simp [badOrders, Json.WellFormed, Json.WellFormedItems, Json.WellFormedFields]
  have failed : (orderRegistry.validate orders badOrders).value = .failure badOrderIssues := rfl
  exact ⟨claimed, wellFormed, failed, (issues_concern_data claimed wellFormed).1 _ failed⟩

end Fluent

end SchemaBridge
