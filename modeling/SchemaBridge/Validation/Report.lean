import SchemaBridge.Json.Basic

/-!
# Validation outcomes

A vendor's validator reports a `VendorOutcome`: parsed output, a bare yes or no, or issues whose
paths come in one of three forms. Callers receive a `ValidationReport`: the data, or issues with
paths that are lists of steps.

## Main definitions

* `PathStep`, `VendorPath` : one step of a path, and the forms of a vendor's path.
* `VendorIssue`, `VendorOutcome` : what a vendor reports.
* `Issue`, `ValidationReport` : what callers receive.
* `Issue.display` : the line that shows an issue.
-/

namespace SchemaBridge

/-- One step of a path: a position of an array or a key of an object. -/
inductive PathStep where
  | index (position : Nat)
  | key (name : String)
  deriving DecidableEq, Repr

/-- A path as a vendor reports it. -/
inductive VendorPath where
  /-- A list of steps. -/
  | segments (steps : List PathStep)
  /-- Steps between slashes: `a/b/0` or `/a/b/0`. -/
  | delimited (raw : String)
  /-- An accessor chain: `a.b[0].c`, `a["x.y"]`. -/
  | accessor (raw : String)
  deriving DecidableEq, Repr

/-- One issue as a vendor reports it. -/
structure VendorIssue where
  message : String
  path : Option VendorPath
  deriving DecidableEq, Repr

/-- What a vendor's validator reports. -/
inductive VendorOutcome where
  /-- The data is valid; this is the output. -/
  | parsed (output : Json)
  /-- The data is valid. -/
  | accepted
  /-- The data is invalid. -/
  | rejected
  /-- The data is invalid for these reasons. -/
  | issues (list : List VendorIssue)

/-- An issue with its location; without a path it concerns the whole value. -/
structure Issue where
  message : String
  path : Option (List PathStep)
  deriving DecidableEq, Repr

/-- The answer to a validation request. -/
inductive ValidationReport where
  | success (data : Json)
  | failure (issues : List Issue)

namespace PathStep

/-- The text of a step. -/
def display : PathStep → String
  | index i => toString i
  | key name => name

/-- A step as JSON: a position is a number, a key is a string. -/
def toJson : PathStep → Json
  | index i => .ofNat i
  | key name => .string name

/-- A step in an accessor chain: a position in brackets; a key bare, after a point unless it is the
first step. -/
def accessorText (first : Bool) : PathStep → String
  | index i => "[" ++ toString i ++ "]"
  | key name => if first then name else "." ++ name

end PathStep

namespace Issue

/-- An issue at a path; the empty path is the whole value. -/
def located (message : String) (path : List PathStep) : Issue :=
  ⟨message, if path.isEmpty then none else some path⟩

/-- An issue of the whole value. -/
def root (message : String) : Issue := ⟨message, none⟩

/-- The accessor chain of a path. -/
def accessorText : List PathStep → String
  | [] => ""
  | step :: rest => step.accessorText true ++ String.join (rest.map (·.accessorText false))

/-- The line that shows an issue. -/
def display (issue : Issue) : String :=
  match issue.path with
  | none => "(root): " ++ issue.message
  | some path => accessorText path ++ ": " ++ issue.message

/-- The issue as JSON; without a path there is no entry for it. -/
def toJson (issue : Issue) : Json :=
  .object <| ("message", .string issue.message) ::
    (issue.path.toList.map fun path => ("path", .array (path.map PathStep.toJson)))

end Issue

namespace ValidationReport

/-- A failure with one issue of the whole value. -/
def ofMessage (message : String) : ValidationReport := failure [Issue.root message]

/-- The validation succeeded. -/
def isSuccess : ValidationReport → Bool
  | success _ => true
  | failure _ => false

/-- The issues; there are none on success. -/
def issues : ValidationReport → List Issue
  | success _ => []
  | failure issues => issues

/-- The result as JSON. -/
def toJson : ValidationReport → Json
  | success data => .object [("success", .bool true), ("data", data)]
  | failure issues =>
    .object [("success", .bool false), ("issues", .array (issues.map Issue.toJson))]

end ValidationReport

end SchemaBridge
