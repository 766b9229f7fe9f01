import SchemaBridge.Number.Shortest

/-!
# How numbers are written

Both texts of a double start from its shortest decimal; what differs is when an exponent is
written, whether a whole number keeps a point, and which of two equally near decimals is taken.
These choices are a `NumberStyle`.

## Main definitions

* `NumberStyle` : the choices.
* `NumberStyle.document` : numbers inside JSON documents.
* `NumberStyle.message` : bounds inside messages.
* `NumberStyle.write` : the text of a double.
-/

namespace SchemaBridge

/-- The choices that fix the text of a double. -/
structure NumberStyle where
  /-- Which of two equally near decimals is written. -/
  tie : Tie
  /-- The decimal exponents that are written without an exponent mark. -/
  plain : Int → Bool
  /-- A whole number written plainly ends in `.0`. -/
  keepsPoint : Bool

namespace NumberStyle

/-- Inside a document, decimal exponents from −5 to 15 are written plainly, a whole number keeps its
point, and a tie goes to the even digit. -/
def document : NumberStyle := ⟨.toEven, fun e => -5 ≤ e && e ≤ 15, true⟩

/-- Inside a message there is never an exponent mark, a whole number is written as an integer, and
a tie goes up. -/
def message : NumberStyle := ⟨.up, fun _ => true, false⟩

/-- The given number of zeros. -/
def zeros (n : Nat) : List Char := List.replicate n '0'

/-- The digits with the point where it belongs. -/
def writePlain (style : NumberStyle) (digits : List Char) (exponent : Int) : List Char :=
  let point := digits.length + exponent
  if 0 ≤ exponent then
    digits ++ zeros exponent.toNat ++ (if style.keepsPoint then ['.', '0'] else [])
  else if 0 < point then digits.take point.toNat ++ '.' :: digits.drop point.toNat
  else '0' :: '.' :: zeros (-point).toNat ++ digits

/-- The digits with the point after the first one, and the exponent with its sign. -/
def writeScientific (digits : List Char) (exponent : Int) : List Char :=
  let mark := if exponent < 0 then ['e', '-'] else ['e', '+']
  let fraction := if digits.length ≤ 1 then [] else '.' :: digits.drop 1
  digits.take 1 ++ fraction ++ mark ++ Decimal.digits exponent.natAbs

/-- The text of a positive magnitude. -/
def writeMagnitude (style : NumberStyle) (units : Nat) : List Char :=
  let decimal := Decimal.shortest style.tie units
  let digits := Decimal.digits decimal.coefficient
  let exponent := digits.length + decimal.exponent - 1
  if style.plain exponent then style.writePlain digits decimal.exponent
  else writeScientific digits exponent

/-- The text of a double. -/
def write (style : NumberStyle) : Binary64 → List Char
  | .nan => "NaN".toList
  | .infinity negative => (if negative then ['-'] else []) ++ "inf".toList
  | .finite negative units =>
    (if negative then ['-'] else []) ++
      (if units = 0 then (if style.keepsPoint then ['0', '.', '0'] else ['0'])
        else style.writeMagnitude units)

/-- The text of a double, as a string. -/
def text (style : NumberStyle) (x : Binary64) : String := String.ofList (style.write x)

end NumberStyle

end SchemaBridge
