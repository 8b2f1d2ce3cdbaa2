import TypedIsl.Double.Basic

/-!
# Decimals and doubles

A decimal is rounded to a double, and a magnitude is written with the fewest digits that are
rounded back to it: the coarsest power of ten whose multiples include such a decimal is found,
and of two such multiples the nearer one is taken.
-/

namespace TypedIsl

/-- The number `digits * 10 ^ exponent`. -/
structure Decimal where
  digits : Nat
  exponent : Int
deriving DecidableEq

namespace Magnitude

/-- The magnitude nearest to a decimal. Exponents so large or so small that the digits cannot
matter are not expanded. -/
def ofDecimal? (d : Decimal) : Option Magnitude :=
  if d.digits = 0 then some zero
  else if 400 < d.exponent then none
  else if d.exponent < -(400 + d.digits.log2 : Int) then some zero
  else ofRatio? (d.digits * Nat.pow 10 d.exponent.toNat) (Nat.pow 10 (-d.exponent).toNat)

/-- Numerator and denominator of the magnitude divided by `10 ^ exponent`. -/
def inUnitsOf (m : Magnitude) (exponent : Int) : Nat × Nat :=
  (m.units * Nat.pow 10 (-exponent).toNat, Nat.pow 2 1074 * Nat.pow 10 exponent.toNat)

/-- The multiple of `10 ^ exponent` next to the magnitude that is rounded back to it; of two, the
nearer one, and the upper one if they are equally near. -/
def multiple? (m : Magnitude) (exponent : Int) : Option Decimal :=
  let (n, d) := m.inUnitsOf exponent
  let lower : Decimal := ⟨n / d, exponent⟩
  let upper : Decimal := ⟨n / d + 1, exponent⟩
  match decide (ofDecimal? lower = some m), decide (ofDecimal? upper = some m) with
  | true, true => if 2 * n < (2 * (n / d) + 1) * d then some lower else some upper
  | true, false => some lower
  | false, true => some upper
  | false, false => none

/-- Searches `steps` powers of ten from `10 ^ exponent` downwards. Multiples of the last one are
taken as they are. -/
def shortestFrom (m : Magnitude) (exponent : Int) : Nat → Decimal
  | 0 => let (n, d) := m.inUnitsOf exponent; ⟨n / d, exponent⟩
  | steps + 1 =>
      match m.multiple? exponent with
      | some d => d
      | none => m.shortestFrom (exponent - 1) steps

/-- The number of digits of the integral part. -/
def integralDigits (m : Magnitude) : Nat :=
  (Nat.toDigits 10 (m.units / Nat.pow 2 1074)).length

/-- The decimal with the fewest digits that is rounded to the magnitude. Every magnitude is a
multiple of `10 ^ -1074`, where the search ends. -/
def shortest (m : Magnitude) : Decimal :=
  m.shortestFrom m.integralDigits (m.integralDigits + 1074)

end Magnitude

namespace Double

/-- The double nearest to a decimal with the given sign. -/
def ofDecimal (negative : Bool) (d : Decimal) : Double :=
  match Magnitude.ofDecimal? d with
  | some m => .finite negative m
  | none => .infinite negative

end Double

end TypedIsl
