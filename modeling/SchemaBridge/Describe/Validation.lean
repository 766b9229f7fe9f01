import SchemaBridge.Describe.Document
import SchemaBridge.Number.Style
import SchemaBridge.Validation.Path

/-!
# The validator of description documents

The validator walks a document alongside the data and lists every issue with the accessor chain of
the value that it concerns. It never changes the data: on success it only says yes.

## Main definitions

* `Describe.Findings` : the issues of a value.
* `Describe.step` : the issues of a value, if the documents inside are checked by `child`.
* `Describe.check` : the issues of a value.
* `Describe.validate` : the outcome for a document and data.
-/

namespace SchemaBridge.Describe

/-- The issues of a value, or the error of a document that is broken. -/
abbrev Findings := Except VendorError (List VendorIssue)

/-- An issue at an accessor chain. -/
def issueAt (chain : List Char) (message : String) : VendorIssue :=
  ⟨message, some (.accessor (String.ofList chain))⟩

/-- An issue of the value at an accessor chain, which is named in the message. -/
def complaint (chain : List Char) (predicate : String) : VendorIssue :=
  issueAt chain ("\"" ++ String.ofList chain ++ "\" " ++ predicate)

/-- What messages call the value at an accessor chain. -/
def label (chain : List Char) : String :=
  if chain.isEmpty then "value" else String.ofList chain

/-- An issue of the value at an accessor chain, which is called by its label. -/
def objection (chain : List Char) (predicate : String) : VendorIssue :=
  issueAt chain ("\"" ++ label chain ++ "\" " ++ predicate)

/-! ### Types and rules -/

/-- The data has the type of a word; nothing for a word that is no type. -/
def hasType? (word : String) (data : Json) : Option Bool :=
  match word with
  | "any" | "symbol" | "function" | "alternatives" => some true
  | "string" | "date" => some data.isString
  | "number" => some data.isNumber
  | "boolean" => some data.isBool
  | "object" => some data.isObject
  | "array" => some data.isArray
  | _ => none

/-- The size that rules compare with their limit: a number itself, or a count. -/
def size? : Json → Option Binary64
  | .string s => some (.ofNat s.length)
  | .number n => some n.toBinary64
  | .array items => some (.ofNat items.length)
  | .object fields => some (.ofNat fields.length)
  | _ => none

/-- What a size that breaks a rule must be. -/
def broken? (size : Binary64) : String × Option Json → Option String
  | (name, args) =>
    (ruleLimit? args).bind fun limit =>
      let text := NumberStyle.message.text limit
      match name with
      | "min" => if size.lt limit then some ("must be at least " ++ text) else none
      | "max" => if limit.lt size then some ("must be at most " ++ text) else none
      | "length" => if size.equal limit then none else some ("must be exactly " ++ text)
      | _ => none

/-- The issues of the rules that the data breaks. -/
def ruleIssues (doc data : Json) (chain : List Char) : List VendorIssue :=
  match size? data with
  | some size => (rules doc).filterMap fun rule => (broken? size rule).map (objection chain)
  | none => []

/-! ### Parts -/

variable {ι : Type}

/-- The issues of the entries of a record. -/
def recordIssues (child : Json → List Char → Findings) (chain : List Char) :
    Json.Fields → Findings
  | [] => return []
  | (key, value) :: rest => do
    let found ← child value (Path.appendKey chain key)
    return found ++ (← recordIssues child chain rest)

/-- The issues of the keys of an object: a key that is absent must be allowed to be. -/
def keyIssues (child : ι → Json → List Char → Findings) (mayMiss : ι → Bool) (data : Json.Fields)
    (chain : List Char) : List (String × ι) → Findings
  | [] => return []
  | (key, doc) :: rest => do
    let inner := Path.appendKey chain key
    let found ← match Table.get? data key with
      | some value => child doc value inner
      | none => pure (if mayMiss doc then [] else [complaint inner "is required"])
    return found ++ (← keyIssues child mayMiss data chain rest)

/-- Some document accepts the value; the documents after it are not looked at. -/
def acceptedByAny (child : ι → Findings) : List ι → Except VendorError Bool
  | [] => return false
  | doc :: rest => do
    if (← child doc).isEmpty then return true else acceptedByAny child rest

/-- The issues of a value that one of several documents must accept: those of the document, if there
is only one. -/
def candidateIssues (child : ι → Findings) (chain : List Char) : List ι → Findings
  | [single] => child single
  | candidates => do
    if ← acceptedByAny child candidates then return []
    else return [complaint chain "does not match any allowed type"]

/-- The issues of the item of an array at a position: the ordered documents come first, then any of
the item documents may accept it. Without item documents a tuple ends. -/
def itemIssues (child : ι → Json → List Char → Findings) (closed : Bool) (ordered items : List ι)
    (chain : List Char) (position : Nat) (value : Json) : Findings :=
  let inner := Path.appendIndex chain position
  match ordered[position]? with
  | some doc => child doc value inner
  | none =>
    if items.isEmpty then return if closed then [complaint inner "is not allowed"] else []
    else candidateIssues (fun doc => child doc value inner) inner items

/-- The issues of the items of an array, from a position on. -/
def arrayIssues (item : Nat → Json → Findings) : Nat → List Json → Findings
  | _, [] => return []
  | position, value :: rest => do
    let found ← item position value
    return found ++ (← arrayIssues item (position + 1) rest)

/-! ### Documents -/

/-- The issues of the parts of a value, if the documents inside are checked by `child`. -/
def partIssues (doc : Json) (child : Within doc → Json → List Char → Findings) (data : Json)
    (chain : List Char) : Findings :=
  match typeWord doc, data with
  | "object", .object fields =>
    if describesRecord doc then do
      match ← recordRule? doc with
      | some rule => recordIssues (child rule) chain fields
      | none => return []
    else do
      let mayMiss (part : Within doc) : Bool := mayBeAbsent part.1 || hasDefault part.1
      keyIssues child mayMiss fields chain (← keyDocuments doc)
  | "array", .array values => do
    let ordered ← documents doc "ordered"
    let items ← documents doc "items"
    let found ← arrayIssues (itemIssues child (describesTuple doc) ordered items chain) 0 values
    return found ++
      if values.length < ordered.length then
        [objection chain ("must contain " ++ toString ordered.length ++ " items")]
      else []
  | "alternatives", _ => do
    if ← acceptedByAny (fun part => child part data chain) (← alternatives doc) then return []
    else return [objection chain "does not match any of the allowed types"]
  | _, _ => return []

/-- The issues of a value, if the documents inside are checked by `child`. An allowed value is right
whatever else the document says, and a value of another type has no further issues. -/
def step (doc : Json) (child : Within doc → Json → List Char → Findings) (data : Json)
    (chain : List Char) : Findings :=
  if forbidsPresence doc then return [objection chain "is not allowed"]
  else if Json.among (allowed doc) data then return []
  else if isExclusive doc then
    return [objection chain ("must be one of " ++ (Json.array (nonNullAllowed doc)).text)]
  else
    let word := typeWord doc
    match hasType? word data with
    | none => throw (malformed ("unknown type `" ++ word ++ "`"))
    | some false => return [objection chain ("must be a " ++ word)]
    | some true => do
      let found ← partIssues doc child data chain
      return ruleIssues doc data chain ++ found

/-- The issues of a value. -/
def check (doc data : Json) (chain : List Char) : Findings :=
  step doc (fun part => check part.1) data chain
termination_by sizeOf doc
decreasing_by exact part.2

/-- The outcome of the validator for a document and data. -/
def validate (doc data : Json) : Except VendorError VendorOutcome := do
  let found ← check doc data []
  return if found.isEmpty then .accepted else .issues found

end SchemaBridge.Describe
