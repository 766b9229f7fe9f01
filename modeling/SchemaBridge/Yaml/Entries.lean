import SchemaBridge.Table
import SchemaBridge.Yaml.Token

/-!
# Flat mappings

A flat text is a YAML text of one document, which is empty or a mapping of scalars to scalars. Its
entries are pairs of scalars. An anchor names a scalar, and a reference to an anchor before it
stands for the scalar of that anchor.

## Main definitions

* `Yaml.Anchors` : the anchors of a document.
* `Yaml.handles?` : what the handles of tags stand for under directives.
* `Yaml.entries?` : the entries of a flat text.
-/

namespace SchemaBridge.Yaml

/-! ### Anchors -/

/-- The key or the value of an entry, before references are followed. -/
inductive Item where
  | scalar (scalar : Scalar)
  /-- The node with a number. -/
  | reference (number : Nat)
  deriving DecidableEq, Repr

/-- The anchors of a document: references go from names to numbers, and from numbers to scalars. The
number of a mapping leads to no scalar. -/
structure Anchors where
  numbers : Table (List Char) Nat := []
  scalars : Table Nat (Option Scalar) := []
  deriving Repr

namespace Anchors

/-- The anchors with one more, if there is a name. Its number counts the names before it. A name
that is set again adds none, so the next new name gets the same number, and the scalar of that
number is the one of the new name. -/
def define (anchors : Anchors) (name : Option (List Char)) (scalar : Option Scalar) : Anchors :=
  match name with
  | some name =>
    let number := anchors.numbers.length
    ⟨Table.put anchors.numbers name number, Table.put anchors.scalars number scalar⟩
  | none => anchors

/-- The scalar that an item stands for. -/
def follow? (anchors : Anchors) : Item → Option Scalar
  | .scalar scalar => some scalar
  | .reference number => (Table.get? anchors.scalars number).join

end Anchors

/-! ### Items -/

/-- What may stand before a node. -/
structure Properties where
  anchor : Option (List Char)
  tag : Option Tag
  deriving DecidableEq, Repr

/-- The anchor and the tag at the head of tokens, in either order, and what follows. -/
def properties : List Token → Properties × List Token
  | .anchor name :: .tag tag :: rest => (⟨name, tag⟩, rest)
  | .tag tag :: .anchor name :: rest => (⟨name, tag⟩, rest)
  | .anchor name :: rest => (⟨name, none⟩, rest)
  | .tag tag :: rest => (⟨none, tag⟩, rest)
  | rest => (⟨none, none⟩, rest)

/-- A node has an anchor or a tag. -/
def Properties.any (properties : Properties) : Bool :=
  properties.anchor.isSome || properties.tag.isSome

/-- The full tag of a node, which may have none. -/
def Properties.fullTag? (handles : Handles) (properties : Properties) :
    Option (Option (List Char)) :=
  match properties.tag with
  | some tag => (tag.resolve? handles).map some
  | none => some none

/-- The scalar that nothing stands for. -/
def Scalar.empty : Scalar := ⟨[], .plain, none⟩

/-- The tokens of a document that are not read yet, and the anchors of the others. -/
structure Reading where
  anchors : Anchors
  tokens : List Token

/-- Reads a scalar or a reference. An anchor or a tag alone belongs to an empty scalar. -/
def item? (handles : Handles) (reading : Reading) : Option (Item × Reading) :=
  match reading.tokens with
  | .reference name :: rest =>
    (Table.get? reading.anchors.numbers name).map fun number =>
      (.reference number, { reading with tokens := rest })
  | tokens => do
    let (properties, rest) := properties tokens
    let tag ← properties.fullTag? handles
    let (scalar, rest) ← match rest with
      | .scalar text style :: rest => some (Scalar.mk text style tag, rest)
      | .blockStart :: _ => none
      | rest => if properties.any then some ({ Scalar.empty with tag }, rest) else none
    return (.scalar scalar, ⟨reading.anchors.define properties.anchor scalar, rest⟩)

/-- No item starts with the token. -/
def isAfterItem : Token → Bool
  | .key | .value | .blockEnd | .comma | .closeBrace => true
  | _ => false

/-- Reads an item that may be left out. -/
def optionalItem? (handles : Handles) (reading : Reading) : Option (Item × Reading) :=
  if reading.tokens.head?.any isAfterItem then some (.scalar .empty, reading)
  else item? handles reading

/-! ### Mappings -/

/-- Reads the entry behind a key token; its value may be left out. -/
def entry? (handles : Handles) (reading : Reading) : Option ((Item × Item) × Reading) := do
  let (key, reading) ← optionalItem? handles reading
  match reading.tokens with
  | .value :: rest =>
    let (value, reading) ← optionalItem? handles { reading with tokens := rest }
    return ((key, value), reading)
  | _ => return ((key, .scalar .empty), reading)

/-- Reads the entries of a mapping in lines, up to its end. The number bounds the steps. -/
def blockEntries? (handles : Handles) : Nat → Reading → Option (List (Item × Item) × Reading)
  | 0, _ => none
  | steps + 1, reading =>
    match reading.tokens with
    | .blockEnd :: rest => some ([], { reading with tokens := rest })
    | .key :: rest => do
      let (entry, reading) ← entry? handles { reading with tokens := rest }
      let (entries, reading) ← blockEntries? handles steps reading
      return (entry :: entries, reading)
    | _ => none

/-- Reads the entries of a mapping between braces, up to its end, with a comma before each but the
first; a comma may also stand before the end. An item without a colon is a key without a value. -/
def flowEntries? (handles : Handles) (first : Bool) :
    Nat → Reading → Option (List (Item × Item) × Reading)
  | 0, _ => none
  | steps + 1, reading =>
    match reading.tokens with
    | .closeBrace :: rest => some ([], { reading with tokens := rest })
    | tokens => do
      let tokens ← match first, tokens with
        | true, tokens => some tokens
        | false, .comma :: rest => some rest
        | false, _ => none
      match tokens with
      | .closeBrace :: rest => return ([], { reading with tokens := rest })
      | _ =>
        let (entry, reading) ← match tokens with
          | .key :: rest => entry? handles { reading with tokens := rest }
          | tokens =>
            (item? handles { reading with tokens }).map fun (key, reading) =>
              ((key, .scalar .empty), reading)
        let (entries, reading) ← flowEntries? handles false steps reading
        return (entry :: entries, reading)

/-- Reads the node of a document. Only a mapping has entries; without one there is an anchor or a
tag alone. -/
def root? (handles : Handles) (tokens : List Token) : Option (List (Item × Item) × Reading) := do
  let (properties, rest) := properties tokens
  let _ ← properties.fullTag? handles
  let reading (rest : List Token) : Reading := ⟨Anchors.define {} properties.anchor none, rest⟩
  match rest with
  | .blockStart :: rest => blockEntries? handles (rest.length + 1) (reading rest)
  | .openBrace :: rest => flowEntries? handles true (rest.length + 1) (reading rest)
  | .scalar .. :: _ => none
  | rest => if properties.any then return ([], reading rest) else none

/-! ### Documents -/

/-- What handles stand for under directives. A version is given once at most, and is 1.1 or 1.2; no
handle is given twice. -/
def handles? (directives : List Directive) : Option Handles :=
  let versions := directives.filterMap fun
    | .version major minor => some (major, minor)
    | .handle .. => none
  let handles := directives.filterMap fun
    | .handle name start => some (name, start)
    | .version .. => none
  if versions.length ≤ 1 && versions.all (fun v => v = (1, 1) || v = (1, 2)) &&
      (handles.map Prod.fst).Nodup then
    some (handles ++ standardHandles)
  else none

/-- The directives at the head of tokens, and what follows. -/
def directives : List Token → List Directive × List Token
  | .directive d :: rest => let (ds, tail) := directives rest; (d :: ds, tail)
  | rest => ([], rest)

/-- Reads the only document of a stream. A document needs a start marker if there are directives,
and only then may it be empty. -/
def document? (tokens : List Token) : Option (List (Item × Item) × Reading) := do
  let (directives, rest) := directives tokens
  let handles ← handles? directives
  match rest with
  | .documentStart :: rest =>
    if isEmptyDocument rest then return ([], ⟨{}, rest⟩) else root? handles rest
  | _ =>
    if !directives.isEmpty then none
    else if rest.isEmpty then return ([], ⟨{}, []⟩)
    else root? handles rest
where
  /-- Nothing stands between a start marker and these tokens. -/
  isEmptyDocument : List Token → Bool
    | [] | .directive _ :: _ | .documentStart :: _ | .documentEnd :: _ => true
    | _ => false

/-- The entries of a flat text: end markers may follow its document. -/
def entries? (text : String) : Option (List (Scalar × Scalar)) := do
  let (entries, reading) ← document? (← tokens? text)
  if reading.tokens.all (· = .documentEnd) then
    entries.mapM fun (key, value) =>
      return (← reading.anchors.follow? key, ← reading.anchors.follow? value)
  else none

end SchemaBridge.Yaml
