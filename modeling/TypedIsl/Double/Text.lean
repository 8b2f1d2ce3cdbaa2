import TypedIsl.Double.Decimal

/-!
# Written forms of doubles

Doubles are written without exponents. In emitted code an integral double keeps a fractional part,
so that it stays inexact.
-/

namespace TypedIsl

/-- Positional digits, with a point only if there is a fractional part. -/
def Decimal.text (d : Decimal) : String :=
  let ds := Nat.toDigits 10 d.digits
  let places := (-d.exponent).toNat
  if places = 0 then String.ofList (ds ++ List.replicate d.exponent.toNat '0')
  else
    let ds := List.replicate (places + 1 - ds.length) '0' ++ ds
    let whole := ds.length - places
    String.ofList (ds.take whole ++ '.' :: ds.drop whole)

namespace Magnitude

def text (m : Magnitude) : String :=
  if m.significand = 0 then "0" else m.shortest.text

/-- The value, if it is integral. -/
def integer? (m : Magnitude) : Option Nat :=
  if m.units % Nat.pow 2 1074 = 0 then some (m.units / Nat.pow 2 1074) else none

/-- Integral values are written out exactly and end in `.0`. -/
def code (m : Magnitude) : String :=
  match m.integer? with
  | some n => s!"{n}.0"
  | none => m.text

end Magnitude

namespace Double

def sign (negative : Bool) : String :=
  if negative then "-" else ""

def text : Double → String
  | .finite negative m => sign negative ++ m.text
  | .infinite negative => sign negative ++ "inf"
  | .nan => "NaN"

/-- The form of a double in emitted code. -/
def code : Double → String
  | .finite negative m => sign negative ++ m.code
  | .infinite negative => sign negative ++ "inf"
  | .nan => "NaN"

end Double

/-- The value of a run of decimal digits. -/
def natOfDigits (cs : List Char) : Nat :=
  cs.foldl (fun n c => 10 * n + (c.toNat - '0'.toNat)) 0

/-- The value of digits around a decimal point. -/
def Decimal.ofDigits (whole fraction : List Char) : Decimal :=
  ⟨natOfDigits (whole ++ fraction), -(fraction.length : Int)⟩

namespace Double

/-- Splits a leading sign off. -/
def unsigned : List Char → Bool × List Char
  | '-' :: cs => (true, cs)
  | '+' :: cs => (false, cs)
  | cs => (false, cs)

/-- The exponent that ends a decimal text: nothing, or `e` and a signed run of digits. -/
def exponentOf? : List Char → Option Int
  | [] => some 0
  | c :: cs =>
      let (negative, ds) := unsigned cs
      if c.toLower = 'e' ∧ ds ≠ [] ∧ ds.all Char.isDigit then
        some (if negative then -(natOfDigits ds : Int) else natOfDigits ds)
      else none

/-- A text without a sign: `inf`, `infinity` or `nan` in any case, or digits with an optional point
and an optional exponent. At least one digit stands before the exponent. -/
def ofUnsigned? (negative : Bool) (cs : List Char) : Option Double :=
  let name := cs.map Char.toLower
  if name = "inf".toList ∨ name = "infinity".toList then some (.infinite negative)
  else if name = "nan".toList then some .nan
  else
    let (whole, rest) := cs.span Char.isDigit
    let (fraction, rest) := match rest with
      | '.' :: rest => rest.span Char.isDigit
      | rest => ([], rest)
    if whole = [] ∧ fraction = [] then none
    else do
      let exponent ← exponentOf? rest
      let d := Decimal.ofDigits whole fraction
      some (ofDecimal negative ⟨d.digits, d.exponent + exponent⟩)

/-- Reads a double, rounding to the nearest. -/
def ofText? (s : String) : Option Double :=
  let (negative, cs) := unsigned s.toList
  ofUnsigned? negative cs

end Double

end TypedIsl
