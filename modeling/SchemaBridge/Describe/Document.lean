import SchemaBridge.Adapter.Error
import SchemaBridge.Constraints

/-!
# Description documents

A description document is a JSON object that describes a type by its `type` word. Modifiers are not
layers of their own but flags: an optional presence, `null` among the allowed values, a default.
Allowed values that are the only ones make a literal or an enumeration; an object with patterns is a
record, and an array with ordered documents is a tuple.

The documents inside a document come with the fact that they are smaller, so that functions on
documents can be defined by recursion on the size.

## Main definitions

* `Describe.Within` : the documents that are smaller than a document.
* `Describe.type?`, `Describe.flag?`, `Describe.allowed`, `Describe.rules` : what a document says.
* `Describe.documents`, `Describe.keyDocuments`, `Describe.alternatives` : the documents inside.
* `Describe.peel?` : the document without its outermost modifier.
* `Describe.constraints` : the constraints that the rules state.
-/

namespace SchemaBridge.Describe

/-- The name of the vendor. -/
def vendor : String := "describe"

/-- The error of a document that is broken. -/
def malformed (reason : String) : VendorError := .malformed vendor reason

/-! ### Documents inside a document -/

/-- The values that are smaller than a document. -/
abbrev Within (doc : Json) := { part : Json // sizeOf part < sizeOf doc }

theorem sizeOf_lt_of_get? {fields : Json.Fields} {key : String} {value : Json}
    (h : Table.get? fields key = some value) : sizeOf value < sizeOf (Json.object fields) := by
  have hm := List.sizeOf_lt_of_mem (Table.mem_of_get? h)
  simp only [Prod.mk.sizeOf_spec, Json.object.sizeOf_spec] at hm ⊢
  omega

theorem sizeOf_lt_of_mem_fields {fields : Json.Fields} {key : String} {value : Json}
    (h : (key, value) ∈ fields) : sizeOf value < sizeOf (Json.object fields) := by
  have hm := List.sizeOf_lt_of_mem h
  simp only [Prod.mk.sizeOf_spec, Json.object.sizeOf_spec] at hm ⊢
  omega

theorem sizeOf_lt_of_mem_items {items : List Json} {item : Json} (h : item ∈ items) :
    sizeOf item < sizeOf (Json.array items) := by
  have hm := List.sizeOf_lt_of_mem h
  simp only [Json.array.sizeOf_spec] at hm ⊢
  omega

/-- The value of a key. -/
def field? : (doc : Json) → String → Option (Within doc)
  | .object fields, key =>
    match h : Table.get? fields key with
    | some value => some ⟨value, sizeOf_lt_of_get? h⟩
    | none => none
  | _, _ => none

theorem field?_map_val (doc : Json) (key : String) :
    (field? doc key).map Subtype.val = doc.get? key := by
  cases doc with
  | object fields =>
    simp only [field?, Json.get?]
    split <;> rename_i h <;> simp [h]
  | _ => rfl

/-- The items of an array. -/
def itemsOf : (doc : Json) → List (Within doc)
  | .array items => items.attach.map fun item => ⟨item.1, sizeOf_lt_of_mem_items item.2⟩
  | _ => []

/-- The entries of an object. -/
def entriesOf : (doc : Json) → List (String × Within doc)
  | .object fields =>
    fields.attach.map fun entry => (entry.1.1, ⟨entry.1.2, sizeOf_lt_of_mem_fields entry.2⟩)
  | _ => []

/-- A part of a part is a part. -/
def Within.trans {doc : Json} {part : Within doc} (inner : Within part.1) : Within doc :=
  ⟨inner.1, Nat.lt_trans inner.2 part.2⟩

/-! ### What a document says -/

/-- The word for the type, if it is given. -/
def type? (doc : Json) : Option String := (doc.get? "type").bind Json.asString?

/-- The word for the type; a document without one describes anything. -/
def typeWord (doc : Json) : String := (type? doc).getD "any"

/-- The value of a flag. -/
def flag? (doc : Json) (name : String) : Option Json := (doc.get? "flags").bind (·.get? name)

/-- The text of a flag. -/
def flagText? (doc : Json) (name : String) : Option String := (flag? doc name).bind Json.asString?

/-- The truth value of a flag; a flag that is not set is false. -/
def flagIsSet (doc : Json) (name : String) : Bool := ((flag? doc name).bind Json.asBool?).getD false

/-- The allowed values are the only ones. -/
def isExclusive (doc : Json) : Bool := flagIsSet doc "only"

/-- The allowed values. -/
def allowed (doc : Json) : List Json := ((doc.get? "allow").bind Json.asArray?).getD []

/-- The allowed values other than `null`. -/
def nonNullAllowed (doc : Json) : List Json := (allowed doc).filter fun v => !v.isNull

/-- The value may be absent. -/
def mayBeAbsent (doc : Json) : Bool := flagText? doc "presence" = some "optional"

/-- No value is allowed. -/
def forbidsPresence (doc : Json) : Bool := flagText? doc "presence" = some "forbidden"

/-- The value may be `null`, beside other values. -/
def admitsNull (doc : Json) : Bool := !isExclusive doc && (allowed doc).any Json.isNull

/-- There is a default. -/
def hasDefault (doc : Json) : Bool := (flag? doc "default").isSome

/-- Some modifier is there. -/
def isWrapped (doc : Json) : Bool := mayBeAbsent doc || admitsNull doc || hasDefault doc

/-- The name of a rule, and its arguments. -/
def rule? (rule : Json) : Option (String × Option Json) :=
  ((rule.get? "name").bind Json.asString?).map fun name => (name, rule.get? "args")

/-- The rules that have a name, in order. -/
def rules (doc : Json) : List (String × Option Json) :=
  (((doc.get? "rules").bind Json.asArray?).getD []).filterMap rule?

/-- The number that a rule is about. -/
def ruleLimit? (args : Option Json) : Option Binary64 :=
  ((args.bind (·.get? "limit")).bind Json.asNumber?).map Number.toBinary64

/-- The object describes a record. -/
def describesRecord (doc : Json) : Bool := type? doc = some "object" && (doc.get? "patterns").isSome

/-- The array describes a tuple. -/
def describesTuple (doc : Json) : Bool := type? doc = some "array" && (doc.get? "ordered").isSome

/-! ### Structure -/

/-- A part that has to be an object or an array if it is there. -/
def part? (doc : Json) (field : String) : Except VendorError (Option (Within doc)) :=
  match field? doc field with
  | none => .ok none
  | some part =>
    if part.1.isObject || part.1.isArray then .ok (some part)
    else .error (malformed ("`" ++ field ++ "` must be an object or array"))

/-- A part that has to be an array if it is there. -/
def documents (doc : Json) (field : String) : Except VendorError (List (Within doc)) := do
  match ← part? doc field with
  | none => return []
  | some part =>
    if part.1.isArray then return (itemsOf part.1).map Within.trans
    else throw (malformed ("`" ++ field ++ "` must be an array"))

/-- The documents of the keys of an object. -/
def keyDocuments (doc : Json) : Except VendorError (List (String × Within doc)) := do
  match ← part? doc "keys" with
  | none => return []
  | some part =>
    if part.1.isObject then
      return (entriesOf part.1).map fun entry => (entry.1, Within.trans entry.2)
    else throw (malformed "`keys` must be an object")

/-- The document of an alternative. -/
def alternative {doc : Json} (part : Within doc) : Except VendorError (Within doc) :=
  match field? part.1 "schema" with
  | some schema => .ok (Within.trans schema)
  | none => .error (malformed "alternative without `schema`")

/-- The documents of the alternatives. -/
def alternatives (doc : Json) : Except VendorError (List (Within doc)) := do
  (← documents doc "matches").mapM alternative

/-- The first pattern of a record; the others are ignored. -/
def leadingPattern? (doc : Json) : Except VendorError (Option (Within doc)) := do
  return (← documents doc "patterns").head?

/-- The document of the values of a record. -/
def recordRule? (doc : Json) : Except VendorError (Option (Within doc)) := do
  return (← leadingPattern? doc).bind fun part => (field? part.1 "rule").map Within.trans

/-! ### Modifiers -/

/-- The document without a flag. -/
def clearFlag (doc : Json) (name : String) : Json :=
  match doc with
  | .object fields =>
    match Table.get? fields "flags" with
    | some (.object flags) =>
      .object (Table.put fields "flags" (.object (Table.swapRemove flags name)))
    | _ => doc
  | _ => doc

/-- The document without `null` among the allowed values. -/
def clearNulls (doc : Json) : Json :=
  match doc with
  | .object fields =>
    match Table.get? fields "allow" with
    | some (.array values) =>
      .object (Table.put fields "allow" (.array (values.filter fun v => !v.isNull)))
    | _ => doc
  | _ => doc

/-- The document without its outermost modifier, if it has one. -/
def peel? (doc : Json) : Option Json :=
  if mayBeAbsent doc then some (clearFlag doc "presence")
  else if admitsNull doc then some (clearNulls doc)
  else if hasDefault doc then some (clearFlag doc "default")
  else none

/-! ### Constraints -/

/-- The text between the first and the last slash, if the text starts with a slash and has another
one; else the whole text. -/
def patternBody (raw : String) : String :=
  match raw.toList with
  | '/' :: rest =>
    match rest.reverse.dropWhile (· ≠ '/') with
    | _ :: source => String.ofList source.reverse
    | [] => raw
  | _ => raw

/-- What a rule says about the constraints. -/
def applyRule (c : Constraints) : String × Option Json → Constraints
  | ("min", args) => { c with min := ruleLimit? args }
  | ("max", args) => { c with max := ruleLimit? args }
  | ("length", args) => { c with min := ruleLimit? args, max := ruleLimit? args }
  | ("pattern", args) =>
    { c with pattern := ((args.bind (·.get? "regex")).bind Json.asString?).map patternBody }
  | ("email", _) => { c with format := some "email" }
  | ("uri", _) => { c with format := some "uri" }
  | ("isoDate", _) => { c with format := some "date-time" }
  | _ => c

/-- The constraints that the rules state; a later rule replaces an earlier one. -/
def constraints (doc : Json) : Constraints := (rules doc).foldl applyRule .empty

end SchemaBridge.Describe
