import SchemaBridge.Draft07.Acceptance
import SchemaBridge.Text.Hexadecimal

/-!
# JSON Pointers

What a validator makes of the text of a `$ref` within a document. After a number sign stands a JSON
Pointer, in which a percent sign with two hexadecimal digits stands for a byte. The pointer has a
slash before each of its tokens, and inside a token a tilde escapes a slash or a tilde. Every token
is a step into the document: to the value of a key, or to the item at an index.

## Main definitions

* `Draft07.Pointer.decoded?`, `Draft07.Pointer.tokens?` : the tokens that a text stands for.
* `Draft07.resolve?` : the place of a document that a reference leads to.
* `Draft07.resolved`, `Draft07.PointerAccepts` : acceptance by a document whose references are read
  as pointers.

## Main results

* `Draft07.resolve?_of_notMem` : without a percent sign the text of a reference is the pointer
  itself.
* `Draft07.resolve?_pointer` : a reference without an escape leads to the definition that it names.
-/

namespace SchemaBridge.Draft07

namespace Pointer

/-! ### Bytes -/

/-- The bytes of a text in which a percent sign and two digits stand for a byte. -/
def bytes : List Char → List UInt8
  | [] => []
  | '%' :: high :: low :: rest =>
    match Hexadecimal.digit? high, Hexadecimal.digit? low with
    | some h, some l => UInt8.ofNat (16 * h + l) :: bytes rest
    | _, _ => String.utf8EncodeChar '%' ++ bytes (high :: low :: rest)
  | c :: rest => String.utf8EncodeChar c ++ bytes rest

/-- The text that a percent-encoded text stands for, if its bytes are one. -/
def decoded? (cs : List Char) : Option String := String.fromUTF8? (bytes cs).toByteArray

/-- Without a percent sign the bytes are those of the text itself. -/
theorem bytes_of_notMem {cs : List Char} (plain : '%' ∉ cs) :
    bytes cs = cs.flatMap String.utf8EncodeChar := by
  fun_induction bytes cs with
  | case1 => rfl
  | case2 => exact absurd List.mem_cons_self plain
  | case3 => exact absurd List.mem_cons_self plain
  | case4 c rest _ ih => rw [List.flatMap_cons, ih fun mem => plain (List.mem_cons_of_mem _ mem)]

theorem decoded?_of_notMem {cs : List Char} (plain : '%' ∉ cs) :
    decoded? cs = some (String.ofList cs) := by
  rw [decoded?, bytes_of_notMem plain]
  change String.fromUTF8? (String.ofList cs).toByteArray = _
  rw [String.fromUTF8?, dif_pos (String.ofList cs).isValidUTF8]
  rfl

/-! ### Tokens -/

/-- A token without its escapes. -/
def unescaped : List Char → List Char
  | [] => []
  | '~' :: '0' :: rest => '~' :: unescaped rest
  | '~' :: '1' :: rest => '/' :: unescaped rest
  | c :: rest => c :: unescaped rest

/-- The tokens of a pointer: none, or a slash before each. -/
def tokens? : List Char → Option (List String)
  | [] => some []
  | '/' :: rest => some ((rest.splitOn '/').map fun token => String.ofList (unescaped token))
  | _ => none

theorem unescaped_of_notMem {cs : List Char} (plain : '~' ∉ cs) : unescaped cs = cs := by
  fun_induction unescaped cs with
  | case1 => rfl
  | case2 => exact absurd List.mem_cons_self plain
  | case3 => exact absurd List.mem_cons_self plain
  | case4 c rest _ _ ih => rw [ih fun mem => plain (List.mem_cons_of_mem _ mem)]

/-- The tokens of the pointer to a definition. -/
theorem tokens?_definition {name : List Char} (slash : '/' ∉ name) (tilde : '~' ∉ name) :
    tokens? ("/$defs/".toList ++ name) = some ["$defs", String.ofList name] := by
  have split : ("$defs".toList ++ '/' :: name).splitOn '/' = ["$defs".toList, name] := by
    have noSlash : '/' ∉ "$defs".toList := by decide
    have first : ∀ c ∈ "$defs".toList, (c == '/') = false := fun c mem =>
      beq_false_of_ne fun same => noSlash (same ▸ mem)
    exact (List.splitOnP_append_cons_of_forall_mem first '/' rfl name).trans
      (congrArg _ (List.splitOn_eq_singleton slash))
  change some ((("$defs".toList ++ '/' :: name).splitOn '/').map _) = _
  rw [split, List.map_cons, List.map_singleton, unescaped_of_notMem tilde]
  rfl

/-! ### Steps -/

/-- The step of a token: to the value of a key, or to the item whose index is written as the
token. -/
def step? : Json → String → Option Json
  | .object fields, token => Table.get? fields token
  | .array items, token => (items.zipIdx.find? fun entry => toString entry.2 = token).map Prod.fst
  | _, _ => none

end Pointer

open Pointer

/-- The place of a document that the text of a reference leads to. -/
def resolve? (document : Json) (reference : String) : Option Json :=
  match reference.toList with
  | '#' :: fragment => do
    let pointer ← decoded? fragment
    (← tokens? pointer.toList).foldlM step? document
  | _ => none

/-- A text stands for the schema at the place that it leads to. -/
def resolved (document : Json) : Targets := fun text =>
  (resolve? document text).bind Json.asObject?

/-- A value is accepted by a document, if references are read as a validator reads them. -/
def PointerAccepts (document data : Json) : Prop :=
  ∃ root, document = .object root ∧ Accepts (resolved document) root data

/-- Without a percent sign the text of a reference is the pointer itself. -/
theorem resolve?_of_notMem {document : Json} {reference : String} {pointer : List Char}
    (text : reference.toList = '#' :: pointer) (plain : '%' ∉ pointer) :
    resolve? document reference =
      (tokens? pointer).bind fun tokens => tokens.foldlM step? document := by
  rw [resolve?, text]
  change ((decoded? pointer).bind fun decoded =>
    (tokens? decoded.toList).bind fun tokens => tokens.foldlM step? document) = _
  rw [decoded?_of_notMem plain, Option.bind_some, String.toList_ofList]

/-- A reference without an escape leads to the definition that it names. -/
theorem resolve?_pointer {document : Json} {defs : Json.Fields} {name : String}
    (isDefs : document.get? "$defs" = some (.object defs))
    (plain : ∀ c ∈ name.toList, c ≠ '%' ∧ c ≠ '~' ∧ c ≠ '/') :
    resolve? document (pointer name) = Table.get? defs name := by
  have text : (pointer name).toList = '#' :: ("/$defs/".toList ++ name.toList) := by
    rw [pointer, String.toList_append]
    rfl
  have noPercent : '%' ∉ "/$defs/".toList ++ name.toList := fun mem =>
    (List.mem_append.1 mem).elim (by decide) fun mem => (plain _ mem).1 rfl
  rw [resolve?_of_notMem text noPercent,
    tokens?_definition (fun mem => (plain _ mem).2.2 rfl) fun mem => (plain _ mem).2.1 rfl,
    String.ofList_toList]
  cases document with
  | object fields =>
    change (Table.get? fields "$defs").bind (fun part => (step? part name).bind some) = _
    rw [show Table.get? fields "$defs" = some (.object defs) from isDefs]
    exact Option.bind_fun_some _
  | _ => cases isDefs

end SchemaBridge.Draft07
