import SchemaBridge.Json.Basic

/-!
# Acceptance

What it means that a value is accepted by a JSON Schema of draft 07, for the keywords that compiled
documents are made of. A `$ref` stands for a schema, and keywords beside it mean nothing; otherwise
a value is accepted if every keyword of the schema holds for it. Formats, patterns and annotations
hold for every value. Recursive definitions are followed only finitely often: acceptance is the
least relation with these rules.

What the text of a `$ref` stands for is left open in the rules. A document accepts what it accepts
when each text stands for the definition that is named in it, as the name is written.

## Main definitions

* `Draft07.assertion` : the keywords that look at the value itself.
* `Draft07.Targets` : what the texts of references stand for.
* `Draft07.Accepts`, `Draft07.Holds` : acceptance by a schema, and by one keyword of it.
* `Draft07.named` : texts that stand for the definitions that are named in them.
* `Draft07.DocumentAccepts` : acceptance by a document with its definitions.

## Main results

* `Draft07.accepts_empty` : the empty schema accepts every value.
* `Draft07.not_accepts_nothing` : no value is accepted by a schema that negates the empty one.
-/

namespace SchemaBridge

/-- The value of a finite number in units of the smallest positive double. -/
def Number.units? : Number → Option Int
  | integer i => some (i * Binary64.one)
  | float (.finite negative units) => some (Binary64.signed negative units)
  | float _ => none

/-- At most, by exact value. -/
def Number.le (a b : Number) : Bool :=
  match a.units?, b.units? with
  | some x, some y => x ≤ y
  | _, _ => false

/-- The number has no fractional part. -/
def Number.isWhole (n : Number) : Bool := n.units?.any fun x => x % (Binary64.one : Int) = 0

namespace Draft07

/-! ### Keywords that look at the value itself -/

/-- The value has the type of a word. A whole number is an integer however it is written. -/
def hasType : String → Json → Bool
  | "integer", .number n => n.isWhole
  | word, data => word = data.typeWord

/-- No two items are the same. -/
def allDistinct : List Json → Bool
  | [] => true
  | v :: rest => !Json.among rest v && allDistinct rest

/-- The size of a value of the kind that a keyword counts. -/
def sizeFor? (keyword : String) (data : Json) : Option Nat :=
  match keyword, data with
  | "minLength", .string s | "maxLength", .string s => some s.length
  | "minItems", .array items | "maxItems", .array items => some items.length
  | "minProperties", .object fields | "maxProperties", .object fields => some fields.length
  | _, _ => none

/-- The number that a bound is compared with, if the bound applies to the value. -/
def measure? (keyword : String) (data : Json) : Option Number :=
  match keyword, data with
  | "minimum", .number n | "maximum", .number n => some n
  | _, _ => (sizeFor? keyword data).map fun n => .integer n

/-- A keyword without schemas in it holds for a value. A keyword that is not known holds. -/
def assertion (keyword : String) (value data : Json) : Bool :=
  match keyword with
  | "type" => value.asString?.any fun word => hasType word data
  | "const" => value.same data
  | "enum" => value.asArray?.any fun values => Json.among values data
  | "required" =>
    data.asObject?.all fun fields =>
      value.asArray?.any fun keys =>
        keys.all fun key => key.asString?.any fun name => Table.has fields name
  | "uniqueItems" => data.asArray?.all fun items => !value.same (.bool true) || allDistinct items
  | "minimum" | "minLength" | "minItems" | "minProperties" =>
    (measure? keyword data).all fun n => value.asNumber?.any fun bound => bound.le n
  | "maximum" | "maxLength" | "maxItems" | "maxProperties" =>
    (measure? keyword data).all fun n => value.asNumber?.any fun bound => n.le bound
  | _ => true

/-! ### Keywords with schemas in them -/

/-- The keywords that have schemas in them. -/
def applicators : List String :=
  ["anyOf", "allOf", "not", "properties", "additionalProperties", "propertyNames", "items",
    "additionalItems"]

/-- The schema of a key of an object, by the keyword `properties` of the schema of the object. -/
def propertySchema? (schema : Json.Fields) (key : String) : Option Json :=
  (Table.get? schema "properties").bind (·.get? key)

/-- The schemas of the positions of an array, if they are given one by one. -/
def positionSchemas? (schema : Json.Fields) : Option (List Json) :=
  (Table.get? schema "items").bind Json.asArray?

/-- The schemas that the texts of references stand for. -/
abbrev Targets := String → Option Json.Fields

mutual

/-- A value is accepted by a schema, given what references stand for. -/
inductive Accepts (targets : Targets) : Json.Fields → Json → Prop where
  /-- A reference stands for its target. -/
  | reference {schema target : Json.Fields} {text : String} {data : Json}
      (isReference : Table.get? schema "$ref" = some (.string text))
      (isTarget : targets text = some target) (accepted : Accepts targets target data) :
      Accepts targets schema data
  /-- Otherwise every keyword holds. -/
  | keywords {schema : Json.Fields} {data : Json} (isPlain : Table.get? schema "$ref" = none)
      (holds : ∀ keyword value, (keyword, value) ∈ schema →
        Holds targets schema keyword value data) :
      Accepts targets schema data

/-- A keyword of a schema holds for a value, given what references stand for. The only negation that
compiled documents have is that of the empty schema, so there is no rule by which a negation
holds. -/
inductive Holds (targets : Targets) :
    Json.Fields → String → Json → Json → Prop where
  /-- The value itself is right. -/
  | assertion {schema : Json.Fields} {keyword : String} {value data : Json}
      (isAssertion : keyword ∉ applicators) (holds : assertion keyword value data = true) :
      Holds targets schema keyword value data
  /-- Some branch accepts. -/
  | anyOf {schema branch : Json.Fields} {branches : List Json} {data : Json}
      (isBranch : .object branch ∈ branches) (accepted : Accepts targets branch data) :
      Holds targets schema "anyOf" (.array branches) data
  /-- All branches accept. -/
  | allOf {schema : Json.Fields} {branches : List Json.Fields} {data : Json}
      (accepted : ∀ branch ∈ branches, Accepts targets branch data) :
      Holds targets schema "allOf" (.array (branches.map .object)) data
  /-- The keys that have a schema are accepted by it. -/
  | properties {schema properties fields : Json.Fields}
      (accepted : ∀ key part value, Table.get? properties key = some (.object part) →
        Table.get? fields key = some value → Accepts targets part value) :
      Holds targets schema "properties" (.object properties) (.object fields)
  /-- The keys that have no schema of their own are accepted by a common one. -/
  | additionalProperties {schema rest fields : Json.Fields}
      (accepted : ∀ key value, (key, value) ∈ fields → propertySchema? schema key = none →
        Accepts targets rest value) :
      Holds targets schema "additionalProperties" (.object rest) (.object fields)
  /-- The keys themselves are accepted. -/
  | propertyNames {schema names fields : Json.Fields}
      (accepted : ∀ key ∈ Table.keys fields, Accepts targets names (.string key)) :
      Holds targets schema "propertyNames" (.object names) (.object fields)
  /-- All items are accepted by one schema. -/
  | items {schema element : Json.Fields} {values : List Json}
      (accepted : ∀ value ∈ values, Accepts targets element value) :
      Holds targets schema "items" (.object element) (.array values)
  /-- The items are accepted by the schemas of their positions. -/
  | positions {schema : Json.Fields} {positions : List Json.Fields} {values : List Json}
      (accepted : ∀ (i : Nat) position value, positions[i]? = some position →
        values[i]? = some value → Accepts targets position value) :
      Holds targets schema "items" (.array (positions.map .object)) (.array values)
  /-- The items after the positions are accepted by a common schema. -/
  | additionalItems {schema rest : Json.Fields} {values : List Json}
      (accepted : ∀ (i : Nat) positions value, positionSchemas? schema = some positions →
        positions.length ≤ i → values[i]? = some value → Accepts targets rest value) :
      Holds targets schema "additionalItems" (.object rest) (.array values)
  /-- Keywords about objects hold for everything else. -/
  | notObject {schema : Json.Fields} {keyword : String} {value data : Json}
      (isAboutObjects : keyword ∈ ["properties", "additionalProperties", "propertyNames"])
      (isOther : data.isObject = false) :
      Holds targets schema keyword value data
  /-- Keywords about arrays hold for everything else. -/
  | notArray {schema : Json.Fields} {keyword : String} {value data : Json}
      (isAboutArrays : keyword ∈ ["items", "additionalItems"]) (isOther : data.isArray = false) :
      Holds targets schema keyword value data

end

/-- The definitions of a document. -/
def definitions (document : Json) : Table String Json.Fields :=
  (((document.get? "$defs").bind Json.asObject?).getD []).filterMap fun entry =>
    entry.2.asObject?.map fun schema => (entry.1, schema)

/-- The text of a reference to a definition. -/
def pointer (name : String) : String := "#/$defs/" ++ name

/-- A text stands for the definition whose name it ends with, as the name is written. -/
def named (defs : Table String Json.Fields) : Targets := fun text =>
  (defs.find? fun entry => pointer entry.1 = text).map Prod.snd

/-- A value is accepted by a document. -/
def DocumentAccepts (document data : Json) : Prop :=
  ∃ root, document = .object root ∧ Accepts (named (definitions document)) root data

theorem pointer_injective {name other : String} (h : pointer name = pointer other) : name = other :=
  (String.append_right_inj _).1 h

/-- The text of a reference to a definition stands for that definition. -/
theorem named_pointer (defs : Table String Json.Fields) (name : String) :
    named defs (pointer name) = Table.get? defs name := by
  induction defs with
  | nil => rfl
  | cons entry rest ih =>
    obtain ⟨key, target⟩ := entry
    rw [named, List.find?_cons, Table.get?_cons]
    by_cases same : key = name
    · rw [if_pos same, decide_eq_true (congrArg pointer same)]
      rfl
    · rw [if_neg same, decide_eq_false (mt pointer_injective same)]
      exact ih

/-! ### The extreme schemas -/

/-- The empty schema accepts every value. -/
theorem accepts_empty (targets : Targets) (data : Json) : Accepts targets [] data :=
  .keywords rfl fun _ _ h => absurd h List.not_mem_nil

/-- There is no rule by which a negation holds. -/
theorem Holds.keyword_ne_not {targets : Targets} {schema : Json.Fields} {keyword : String}
    {value data : Json} (h : Holds targets schema keyword value data) :
    keyword ≠ "not" := by
  cases h with
  | assertion isAssertion => rintro rfl; simp [applicators] at isAssertion
  | notObject isAboutObjects => rintro rfl; simp at isAboutObjects
  | notArray isAboutArrays => rintro rfl; simp at isAboutArrays
  | _ => decide

/-- No value is accepted by a schema that negates the empty one. -/
theorem not_accepts_nothing (targets : Targets) (data : Json) :
    ¬ Accepts targets [("not", .object [])] data := by
  intro h
  cases h with
  | reference isReference => simp [Table.get?] at isReference
  | keywords _ holds => exact (holds "not" (.object []) (by simp)).keyword_ne_not rfl

end Draft07

end SchemaBridge
