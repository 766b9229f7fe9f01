import SchemaBridge.Number.Binary64
import SchemaBridge.Table

/-!
# JSON values

Values of a JSON document. Objects keep the order of their keys; numbers are integers or doubles,
and the two kinds are told apart: `1` and `1.0` are different values.

## Main definitions

* `Number` : an integer or a double.
* `Json` : a value.
* `Json.Fields` : the entries of an object.
* `Json.same` : equality of values, which ignores the order of keys.
* `Json.WellFormed` : no object has a key twice.

## Main results

* `Json.same_refl` : a well-formed value is the same as itself.
-/

namespace SchemaBridge

/-- A JSON number: an integer written without fraction and exponent, or a double. -/
inductive Number where
  | integer (value : Int)
  | float (value : Binary64)
  deriving DecidableEq, Repr

namespace Number

/-- Equality of numbers: an integer is never equal to a double, and the two zeros are equal. -/
def same : Number → Number → Bool
  | integer a, integer b => a == b
  | float a, float b => a.equal b
  | _, _ => false

/-- The double nearest to a number. -/
def toBinary64 : Number → Binary64
  | integer i => .ofInt i
  | float x => x

/-- The number is an integer. -/
def isInteger : Number → Bool
  | integer _ => true
  | float _ => false

end Number

/-- A JSON value. -/
inductive Json where
  | null
  | bool (value : Bool)
  | number (value : Number)
  | string (value : String)
  | array (items : List Json)
  | object (fields : List (String × Json))

namespace Json

/-- The entries of an object, in order. -/
abbrev Fields := Table String Json

instance : Inhabited Json := ⟨null⟩

/-- The JSON number of a double; the document notation has none for a NaN or an infinity. -/
def ofBinary64 (x : Binary64) : Json := if x.isFinite then number (.float x) else null

/-- The JSON number of an integer. -/
def ofInt (i : Int) : Json := number (.integer i)

/-- The JSON number of a natural number. -/
def ofNat (n : Nat) : Json := ofInt n

/-- The array of strings. -/
def ofStrings (texts : List String) : Json := array (texts.map string)

/-! ### Reading parts -/

/-- The value of a key, if the value is an object that has the key. -/
def get? : Json → String → Option Json
  | object fields, key => Table.get? fields key
  | _, _ => none

/-- The text of a string. -/
def asString? : Json → Option String
  | string s => some s
  | _ => none

/-- The truth value of a boolean. -/
def asBool? : Json → Option Bool
  | bool b => some b
  | _ => none

/-- The items of an array. -/
def asArray? : Json → Option (List Json)
  | array items => some items
  | _ => none

/-- The entries of an object. -/
def asObject? : Json → Option Fields
  | object fields => some fields
  | _ => none

/-- A number. -/
def asNumber? : Json → Option Number
  | number n => some n
  | _ => none

/-- The value is `null`. -/
def isNull : Json → Bool
  | null => true
  | _ => false

/-- The value is a string. -/
def isString (j : Json) : Bool := j.asString?.isSome

/-- The value is a number. -/
def isNumber (j : Json) : Bool := j.asNumber?.isSome

/-- The value is an integer. -/
def isInteger (j : Json) : Bool := j.asNumber?.any Number.isInteger

/-- The value is a boolean. -/
def isBool (j : Json) : Bool := j.asBool?.isSome

/-- The value is an array. -/
def isArray (j : Json) : Bool := j.asArray?.isSome

/-- The value is an object. -/
def isObject (j : Json) : Bool := j.asObject?.isSome

/-- The word for the type of a value. -/
def typeWord : Json → String
  | null => "null"
  | bool _ => "boolean"
  | number _ => "number"
  | string _ => "string"
  | array _ => "array"
  | object _ => "object"

/-! ### Equality -/

mutual

/-- Equality of values: items in order, entries in any order, numbers of one kind by value. -/
def same : Json → Json → Bool
  | null, null => true
  | bool a, bool b => a == b
  | number a, number b => a.same b
  | string a, string b => a == b
  | array as, array bs => sameItems as bs
  | object fs, object gs => fs.length == gs.length && sameFields fs gs
  | _, _ => false

/-- The items are the same one by one. -/
def sameItems : List Json → List Json → Bool
  | [], [] => true
  | a :: as, b :: bs => same a b && sameItems as bs
  | _, _ => false

/-- Every entry on the left has a value on the right that is the same. -/
def sameFields : List (String × Json) → List (String × Json) → Bool
  | [], _ => true
  | (key, a) :: fs, gs =>
    (match Table.get? gs key with
      | some b => same a b
      | none => false) && sameFields fs gs

end

instance : BEq Json := ⟨same⟩

/-- The value is the same as one of the list. -/
def among (values : List Json) (v : Json) : Bool := values.any fun w => w.same v

mutual

/-- No object inside the value has a key twice, and no number is a NaN. -/
def WellFormed : Json → Prop
  | array items => WellFormedItems items
  | object fields => (Table.keys fields).Nodup ∧ WellFormedFields fields
  | number (.float x) => x ≠ .nan
  | _ => True

/-- All items are well-formed. -/
def WellFormedItems : List Json → Prop
  | [] => True
  | j :: rest => WellFormed j ∧ WellFormedItems rest

/-- All entries have well-formed values. -/
def WellFormedFields : List (String × Json) → Prop
  | [] => True
  | (_, j) :: rest => WellFormed j ∧ WellFormedFields rest

end

/-! ### A value is the same as itself -/

mutual

theorem same_refl : (j : Json) → WellFormed j → same j j = true
  | null, _ => by simp [same]
  | bool _, _ => by simp [same]
  | number (.integer _), _ => by simp [same, Number.same]
  | number (.float x), h => by
    have hx : x ≠ .nan := by simpa [WellFormed] using h
    simp [same, Number.same, Binary64.equal_self hx]
  | string _, _ => by simp [same]
  | array items, h => by
    have hi : WellFormedItems items := by simpa [WellFormed] using h
    simp [same, sameItems_refl items hi]
  | object fields, h => by
    have hf : (Table.keys fields).Nodup ∧ WellFormedFields fields := by simpa [WellFormed] using h
    have hs := sameFields_of_subset fields fields hf.1 (fun _ he => he) hf.2
    simp [same, hs]

theorem sameItems_refl : (items : List Json) → WellFormedItems items → sameItems items items = true
  | [], _ => by simp [sameItems]
  | j :: rest, h => by
    have h' : WellFormed j ∧ WellFormedItems rest := by simpa [WellFormedItems] using h
    simp [sameItems, same_refl j h'.1, sameItems_refl rest h'.2]

theorem sameFields_of_subset : (fs gs : List (String × Json)) → (Table.keys gs).Nodup →
    (∀ e ∈ fs, e ∈ gs) → WellFormedFields fs → sameFields fs gs = true
  | [], _, _, _, _ => by simp [sameFields]
  | (key, j) :: rest, gs, hk, hs, h => by
    have h' : WellFormed j ∧ WellFormedFields rest := by simpa [WellFormedFields] using h
    have hg : Table.get? gs key = some j := Table.get?_of_mem hk (hs _ List.mem_cons_self)
    have hr := sameFields_of_subset rest gs hk (fun e he => hs e (List.mem_cons_of_mem _ he)) h'.2
    simp [sameFields, hg, same_refl j h'.1, hr]

end

end Json

end SchemaBridge
