import SchemaBridge.Proofs.Plan.Outcome

/-!
# What a structure consists of

The plan for the structure of a node depends on its shape and on the answers of its adapter.
Whatever is said of structures is said of the assemblies that such plans come to; they are listed
here, once, each with the answers and the compiled parts that it is made of.

## Main definitions

* `Structure.typeShapes` : the shapes that may be a type and nothing else.
* `Structure.Consists` : the structures that nodes of a shape may have.

## Main results

* `Structure.consists_of_yields` : a plan for a structure comes to one of these.
-/

namespace SchemaBridge.Structure

variable {π : Type}

/-- The shapes that may have a type and nothing else as their structure, with the word for it. -/
def typeShapes : List (Shape × String) :=
  [(.instanceOf, "object"), (.bigint, "integer"), (.string, "string"), (.number, "number"),
    (.boolean, "boolean"), (.null, "null")]

theorem get?_optionally (key word : String) (value : Option Json) :
    Table.get? (optionally key value) word = if key = word then value else none := by
  cases value <;> simp [optionally, Table.get?_cons]

/-- The structures that a node of a shape may have, if parts may compile to schemas as `compiles`
says. -/
inductive Consists (compiles : Node π → NodeSchema → Prop) (options : DocumentOptions)
    (node : Node π) (adapter : Adapter π) : Shape → Assembly → Prop where
  | literal : Consists compiles options node adapter .literal
      { body := optionally "const" (adapter.literal node), bounds := .value }
  | noValues (empty : adapter.values node = []) :
      Consists compiles options node adapter .enumeration
      { body := nothing, bounds := .value }
  | enumeration (nonempty : adapter.values node ≠ []) :
      Consists compiles options node adapter .enumeration
      { body := [("enum", .array (adapter.values node))], bounds := .value }
  | date {shape : Shape}
      (isDate : shape = .date ∨ shape = .instanceOf ∧ adapter.className node = some "Date") :
      Consists compiles options node adapter shape { body := date options, bounds := shape.bounds }
  | typed {shape : Shape} {word : String} (isWord : (shape, word) ∈ typeShapes) :
      Consists compiles options node adapter shape { body := typed word, bounds := shape.bounds }
  | anything {shape : Shape} (isOpen : shape ∈ [.symbol, .function, .any, .unknown, .promise]) :
      Consists compiles options node adapter shape { body := [], bounds := shape.bounds }
  | nothing {shape : Shape} (isEmpty : shape ∈ [.undefined, .void, .never]) :
      Consists compiles options node adapter shape { body := nothing, bounds := shape.bounds }
  | promise {inner : Node π} {c : NodeSchema} (gives : (adapter.awaited node).Gives (some inner))
      (compiled : compiles inner c) :
      Consists compiles options node adapter .promise { body := c.schema, bounds := c.bounds }
  | only {part : Node π} {c : NodeSchema} (gives : (adapter.options node).Gives [part])
      (compiled : compiles part c) :
      Consists compiles options node adapter .union { body := c.schema, bounds := c.bounds }
  | union {parts : List (Node π)} {cs : List NodeSchema}
      (gives : (adapter.options node).Gives parts)
      (compiled : List.Forall₂ compiles parts cs) :
      Consists compiles options node adapter .union { body := union cs, bounds := .value }
  | intersection {parts : List (Node π)} {cs : List NodeSchema}
      (gives : (adapter.parts node).Gives parts) (compiled : List.Forall₂ compiles parts cs) :
      Consists compiles options node adapter .intersection
        { body := intersection cs, bounds := .value }
  | tuple {positions : List (Node π)} {rest : Option (Node π)} {cs : List NodeSchema}
      {c : Option NodeSchema} (gives : (adapter.positions node).Gives positions)
      (compiled : List.Forall₂ compiles positions cs) (givesRest : (adapter.rest node).Gives rest)
      (others : Option.Rel compiles rest c) :
      Consists compiles options node adapter .tuple
        { body := tuple (cs.map NodeSchema.toJson) (c.map NodeSchema.toJson),
          bounds := Shape.tuple.bounds }
  | object {entries : List (String × Node π)} {cs : List (String × NodeSchema)}
      (gives : (adapter.entries node).Gives entries)
      (compiled : List.Forall₂ (fun a b => a.1 = b.1 ∧ compiles a.2 b.2) entries cs) :
      Consists compiles options node adapter .object
        { body := object cs, bounds := Shape.object.bounds }
  | array {element : Option (Node π)} {c : Option NodeSchema}
      (gives : (adapter.element node).Gives element) (compiled : Option.Rel compiles element c) :
      Consists compiles options node adapter .array
        { body := Structure.typed "array" ++ optionally "items" (c.map NodeSchema.toJson),
          bounds := Shape.array.bounds }
  | set {element : Option (Node π)} {c : Option NodeSchema}
      (gives : (adapter.member node).Gives element) (compiled : Option.Rel compiles element c) :
      Consists compiles options node adapter .set
        { body := Structure.typed "array" ++ [("uniqueItems", .bool true)] ++
            optionally "items" (c.map NodeSchema.toJson),
          bounds := Shape.set.bounds }
  | record {key value : Option (Node π)} {k v : Option NodeSchema}
      (gives : (adapter.recordKey node).Gives key)
      (givesValue : (adapter.recordValue node).Gives value)
      (keys : Option.Rel compiles key k) (values : Option.Rel compiles value v) :
      Consists compiles options node adapter .record
        { body := keyed k v, bounds := Shape.record.bounds }
  | map {key value : Option (Node π)} {k v : Option NodeSchema}
      (gives : (adapter.mapKey node).Gives key) (givesValue : (adapter.mapValue node).Gives value)
      (keys : Option.Rel compiles key k) (values : Option.Rel compiles value v) :
      Consists compiles options node adapter .map { body := keyed k v, bounds := Shape.map.bounds }

variable {compiles : Node π → NodeSchema → Prop} {options : DocumentOptions} {node : Node π}
  {adapter : Adapter π} {shape : Shape} {assembly : Assembly}

open Plan

/-- The plan for the structure of a node comes to a structure of its shape. -/
theorem consists_of_yields (h : Yields compiles (ofShape options node adapter shape) assembly) :
    Consists compiles options node adapter shape assembly := by
  cases shape with
  | literal =>
    simp only [ofShape, yields_pure] at h
    subst h
    exact .literal
  | enumeration =>
    simp only [ofShape, yields_pure] at h
    subst h
    by_cases empty : adapter.values node = []
    · rw [empty]
      exact .noValues empty
    · rw [if_neg (mt List.isEmpty_iff.1 empty)]
      exact .enumeration empty
  | date =>
    simp only [ofShape, yields_pure] at h
    subst h
    exact .date (.inl rfl)
  | instanceOf =>
    simp only [ofShape, yields_pure] at h
    subst h
    by_cases isDate : adapter.className node = some "Date"
    · rw [if_pos isDate]
      exact .date (.inr ⟨rfl, isDate⟩)
    · rw [if_neg isDate]
      exact .typed (by decide)
  | bigint | string | number | boolean | null =>
    simp only [ofShape, yields_pure] at h
    subst h
    exact .typed (by decide)
  | symbol | function | any | unknown =>
    simp only [ofShape, yields_pure] at h
    subst h
    exact .anything (by decide)
  | undefined | void | never =>
    simp only [ofShape, yields_pure] at h
    subst h
    exact .nothing (by decide)
  | promise =>
    simp only [ofShape, yields_bind, yields_question] at h
    obtain ⟨inner, gives, h⟩ := h
    cases inner with
    | none =>
      rw [yields_pure] at h
      subst h
      exact .anything (by decide)
    | some inner =>
      simp only [yields_bind, yields_part, yields_pure] at h
      obtain ⟨c, compiled, rfl⟩ := h
      exact .promise gives compiled
  | union =>
    simp only [ofShape, yields_bind, yields_question, yields_parts] at h
    obtain ⟨nodes, gives, cs, compiled, h⟩ := h
    split at h
    next only =>
      obtain rfl := (yields_pure _ _).1 h
      obtain _ | ⟨compiled, ⟨⟩⟩ := compiled
      exact .only gives compiled
    next =>
      obtain rfl := (yields_pure _ _).1 h
      exact .union gives compiled
  | intersection =>
    simp only [ofShape, yields_bind, yields_question, yields_parts, yields_pure] at h
    obtain ⟨nodes, gives, cs, compiled, rfl⟩ := h
    exact .intersection gives compiled
  | tuple =>
    simp only [ofShape, yields_bind, yields_question, yields_parts, yields_part?, yields_pure] at h
    obtain ⟨nodes, gives, cs, compiled, rest, givesRest, c, others, rfl⟩ := h
    exact .tuple gives compiled givesRest others
  | object =>
    simp only [ofShape, yields_bind, yields_question, yields_entries, yields_pure] at h
    obtain ⟨nodes, gives, cs, compiled, rfl⟩ := h
    exact .object gives compiled
  | array =>
    simp only [ofShape, yields_bind, yields_question, yields_part?, yields_pure] at h
    obtain ⟨element, gives, c, compiled, rfl⟩ := h
    exact .array gives compiled
  | set =>
    simp only [ofShape, yields_bind, yields_question, yields_part?, yields_pure] at h
    obtain ⟨element, gives, c, compiled, rfl⟩ := h
    exact .set gives compiled
  | record =>
    simp only [ofShape, yields_bind, yields_question, yields_part?, yields_pure] at h
    obtain ⟨key, gives, value, givesValue, k, keys, v, values, rfl⟩ := h
    exact .record gives givesValue keys values
  | map =>
    simp only [ofShape, yields_bind, yields_question, yields_part?, yields_pure] at h
    obtain ⟨key, gives, value, givesValue, k, keys, v, values, rfl⟩ := h
    exact .map gives givesValue keys values

end SchemaBridge.Structure
