import SchemaBridge.Number.Style
import SchemaBridge.Json.Printer
import SchemaBridge.Schema

/-!
# The validator of fluent schemas

The validator walks a schema alongside the data. It collects every issue with the steps to the value
that it concerns, and builds the output: defaults filled in, caught failures replaced,
transformations applied. Patterns and formats are not enforced, and values below a node of another
vendor are accepted as they are.

## Main definitions

* `Fluent.Walk`, `Fluent.WalkM` : what the validator keeps while it walks.
* `Fluent.Walk.within` : work on a part of the value at hand.
* `Fluent.Walk.attempt` : work whose issues are dropped.
* `Fluent.Walk.kind`, `Fluent.Walk.node` : the output of a kind and of a node.
* `Fluent.validate` : the outcome for a node and data.
-/

namespace SchemaBridge.Fluent

/-- What the validator keeps while it walks. -/
structure Walk where
  /-- The steps to the value at hand, the latest first. -/
  trail : List PathStep
  /-- The issues, the latest first. -/
  issues : List VendorIssue
  /-- What has been reported, the latest first. -/
  events : List Event

/-- Work of the validator. An adapter error ends it, and leaves what has been kept. -/
abbrev WalkM := ExceptT VendorError (StateM Walk)

/-- What an absent entry of an object becomes. -/
inductive Absence where
  /-- It stays absent. -/
  | skip
  /-- A value is put in. -/
  | fill (value : Json)
  /-- It should be there. -/
  | missing

namespace Walk

variable {γ α : Type}

/-- The greatest number of nested layers. -/
def nestingLimit : Nat := 1024

/-- The error of a schema that is nested deeper. -/
def tooDeep : VendorError := .malformed vendor "schema nesting too deep"

/-! ### Bookkeeping -/

/-- Reports an issue of the value at hand. -/
def complain (message : String) : WalkM Unit :=
  modify fun s => { s with issues := ⟨message, some (.segments s.trail.reverse)⟩ :: s.issues }

/-- Reports an event. -/
def note (event : Event) : WalkM Unit := modify fun s => { s with events := event :: s.events }

/-- Work on a part of the value at hand; the trail is stepped back even if the work fails. -/
def within (step : PathStep) (work : WalkM α) : WalkM α := ExceptT.mk fun s =>
  let (result, s) := work.run.run { s with trail := step :: s.trail }
  (result, { s with trail := s.trail.tail })

/-- What work answers, and whether it reported no issue. -/
def noting (work : WalkM α) : WalkM (α × Bool) := do
  let before := (← get).issues.length
  let result ← work
  return (result, (← get).issues.length = before)

/-- What work answers if it reports no issue. Its issues are dropped. -/
def attempt (work : WalkM α) : WalkM (Option α) := ExceptT.mk fun s =>
  let (result, scratch) := work.run.run { s with issues := [] }
  (result.map fun a => if scratch.issues.isEmpty then some a else none,
    { s with events := scratch.events })

/-- Reports what was expected, unless it is there. -/
def require (holds : Bool) (expected : String) (data : Json) : WalkM Json := do
  if !holds then complain ("expected " ++ expected ++ ", received " ++ data.typeWord)
  return data

/-! ### Constraints -/

/-- The size that bounds are compared with, and the word for what is counted. -/
def size? : Json → Option (Nat × String)
  | .string s => some (s.length, "characters")
  | .array items => some (items.length, "items")
  | .object fields => some (fields.length, "properties")
  | _ => none

/-- Reports the constraints of a layer that the value at hand breaks. On anything with a size, a
length stands in for a bound that is not set. -/
def constraints (c : Constraints) (data : Json) : WalkM Unit := do
  match data with
  | .number n =>
    let value := n.toBinary64
    if let some min := c.min.filter value.lt then
      complain ("must be >= " ++ NumberStyle.message.text min)
    if let some max := c.max.filter (·.lt value) then
      complain ("must be <= " ++ NumberStyle.message.text max)
  | _ =>
    if let some (count, unit) := size? data then
      let size := Binary64.ofNat count
      let min := c.min.or (c.minLength.map .ofNat)
      let max := c.max.or (c.maxLength.map .ofNat)
      if let some min := min.filter size.lt then
        complain ("must contain at least " ++ NumberStyle.message.text min ++ " " ++ unit)
      if let some max := max.filter (·.lt size) then
        complain ("must contain at most " ++ NumberStyle.message.text max ++ " " ++ unit)

/-! ### Parts -/

/-- The node of a deferred layer. What it is called does not matter here. -/
def targetOf (scope : Scope γ) (target : Deferred γ) : Except VendorError (Schema γ) :=
  ((scope.target target).run 0).1

/-- What an absent entry of a node becomes: the first layer that says so decides. The first argument
is the number of layers that may be looked at. -/
def absence (scope : Scope γ) : Nat → Schema γ → Except VendorError Absence
  | 0, _ => throw tooDeep
  | room + 1, node =>
    match node.payload.fluent? with
    | none => return .missing
    | some layer =>
      match layer.kind with
      | .optional _ | .undefined | .void => return .skip
      | .defaulted _ value | .caught _ value => return .fill value
      | .nullable inner | .branded inner _ | .refined inner _ _ | .transformed inner _ =>
        absence scope room inner
      | .deferred target => do absence scope room (← targetOf scope target)
      | _ => return .missing

/-- The outputs of the items of an array, from a position on. -/
def items (check : Nat → Json → WalkM Json) : Nat → List Json → WalkM (List Json)
  | _, [] => return []
  | i, item :: rest => do
    let output ← within (.index i) (check i item)
    return output :: (← items check (i + 1) rest)

/-- The outputs of the items of a set, from a position on; `seen` are the outputs before. -/
def members (check : Json → WalkM Json) (seen : List Json) :
    Nat → List Json → WalkM (List Json)
  | _, [] => return []
  | i, item :: rest => do
    let output ← within (.index i) (check item)
    if Json.among seen output then within (.index i) (complain "duplicate set element")
    return output :: (← members check (seen ++ [output]) (i + 1) rest)

/-- The outputs of the entries of a record; keys are checked like values. -/
def entries (key value : Json → WalkM Json) : Json.Fields → WalkM Json.Fields
  | [] => return []
  | (name, data) :: rest => do
    let output ← within (.key name) do
      let _ ← key (.string name)
      value data
    return (name, output) :: (← entries key value rest)

/-- Puts the outputs of the entries of an object schema into a table that starts as the data. -/
def properties (check : Schema γ → Json → WalkM Json)
    (absence : Schema γ → Except VendorError Absence) (data : Json.Fields) :
    List (String × Schema γ) → Json.Fields → WalkM Json.Fields
  | [], output => return output
  | (name, node) :: rest, output => do
    match Table.get? data name with
    | some value =>
      let value ← within (.key name) (check node value)
      properties check absence data rest (Table.put output name value)
    | none =>
      match ← (absence node : Except VendorError Absence) with
      | .skip => properties check absence data rest output
      | .fill value => properties check absence data rest (Table.put output name value)
      | .missing =>
        within (.key name) (complain "required")
        properties check absence data rest output

/-- The output of the first option that accepts the data. -/
def firstOf (check : Schema γ → WalkM Json) : List (Schema γ) → WalkM (Option Json)
  | [] => return none
  | option :: rest => do
    match ← attempt (check option) with
    | some output => return some output
    | none => firstOf check rest

/-- The output of a tuple. -/
def tuple (check : Schema γ → Json → WalkM Json) (nodes : List (Schema γ))
    (rest : Option (Schema γ)) (data : Json) (values : List Json) : WalkM Json := do
  if values.length < nodes.length then
    complain ("expected at least " ++ toString nodes.length ++ " items")
    return data
  else if rest.isNone && nodes.length < values.length then
    complain ("expected at most " ++ toString nodes.length ++ " items")
    return data
  else
    let position (i : Nat) (value : Json) : WalkM Json :=
      match nodes[i]?.or rest with
      | some node => check node value
      | none => return value
    return .array (← items position 0 values)

/-! ### Kinds and nodes -/

/-- The output of a kind, if its parts are checked by `check`. -/
def kind (scope : Scope γ) (check : Schema γ → Json → WalkM Json)
    (kind : Kind γ (Schema γ)) (data : Json) : WalkM Json := do
  match kind with
  | .string | .date => require data.isString "string" data
  | .number => require data.isNumber "number" data
  | .boolean => require data.isBool "boolean" data
  | .null => require data.isNull "null" data
  | .bigint => require data.isInteger "integer" data
  | .undefined | .void => require false "undefined" data
  | .never =>
    complain "no value is allowed here"
    return data
  | .any | .unknown | .symbol | .function => return data
  | .literal value =>
    if !data.same value then complain ("expected literal " ++ value.text)
    return data
  | .enumeration values =>
    if !Json.among values data then complain ("expected one of " ++ (Json.array values).text)
    return data
  | .instanceOf className =>
    if className = "Date" then require data.isString "string" data
    else
      if !data.isObject then complain ("expected instance of " ++ className)
      return data
  | .object entries =>
    match data.asObject? with
    | some fields =>
      return .object
        (← properties check (absence scope nestingLimit) fields entries fields)
    | none => require false "object" data
  | .array element =>
    match data.asArray? with
    | some values => return .array (← items (fun _ => check element) 0 values)
    | none => require false "array" data
  | .tuple nodes rest =>
    match data.asArray? with
    | some values => tuple check nodes rest data values
    | none => require false "array" data
  | .set element =>
    match data.asArray? with
    | some values => return .array (← members (check element) [] 0 values)
    | none => require false "array" data
  | .record key value | .map key value =>
    match data.asObject? with
    | some fields => return .object (← entries (check key) (check value) fields)
    | none => require false "object" data
  | .union options =>
    match ← firstOf (fun option => check option data) options with
    | some output => return output
    | none =>
      complain "value does not match any union option"
      return data
  | .intersection parts =>
    parts.forM fun part => discard (check part data)
    return data
  | .promise inner | .optional inner | .branded inner _ | .defaulted inner _ => check inner data
  | .nullable inner => if data.isNull then return .null else check inner data
  | .caught inner fallback => return (← attempt (check inner data)).getD fallback
  | .refined inner message holds =>
    let (output, clean) ← noting (check inner data)
    if clean && !holds output then complain message
    return output
  | .transformed inner apply =>
    let (output, clean) ← noting (check inner data)
    return if clean then apply output else output
  | .deferred target =>
    let inner ← (targetOf scope target : Except VendorError (Schema γ))
    check inner data

/-- The output of a node that may have this many nested layers, itself included. The constraints of
a layer are only looked at if everything inside it is right. -/
def node (scope : Scope γ) : Nat → Schema γ → Json → WalkM Json
  | 0, _, _ => throw tooDeep
  | room + 1, schema, data =>
    match schema.payload.fluent? with
    | none => do
      note (.foreignInside schema.typeName)
      return data
    | some layer => do
      let (output, clean) ← noting (kind scope (node scope room) layer.kind data)
      if clean then constraints layer.details.constraints data
      return output

/-- What the validator keeps at the start. -/
def start : Walk := ⟨[], [], []⟩

end Walk

variable {γ : Type}

/-- The outcome of the validator for a node and data. -/
def validate (scope : Scope γ) (schema : Schema γ) (data : Json) : Verdict :=
  let (result, checker) := (Walk.node scope (Walk.nestingLimit + 1) schema data).run.run Walk.start
  ⟨checker.events.reverse, result.map fun output =>
    if checker.issues.isEmpty then .parsed output else .issues checker.issues.reverse⟩

end SchemaBridge.Fluent
