/-!
# Binary floating-point numbers

The numbers of the 64-bit binary format: an integer of at most 53 bits times a
power of two, two infinities, and one value that is no number. Decimal numbers
are rounded to the nearest of them, a tie going to the even mantissa.
-/

namespace LaurentCalc.Number

/-- A number of the 64-bit binary format; a finite one is `mantissa * 2 ^ exponent`. -/
inductive Binary64 where
  | nan
  | infinite (negative : Bool)
  | finite (negative : Bool) (mantissa : Nat) (exponent : Int)
  deriving DecidableEq

/-- The quotient rounded to the nearest integer, a tie to the even one. -/
def roundDiv (numerator denominator : Nat) : Nat :=
  let q := numerator / denominator
  let r := numerator % denominator
  if 2 * r > denominator ∨ (2 * r = denominator ∧ q % 2 = 1) then q + 1 else q

/-- `base ^ exponent` as a fraction. -/
def powerFraction (base : Nat) (exponent : Int) : Nat × Nat :=
  (base.pow exponent.toNat, base.pow (-exponent).toNat)

namespace Binary64

def leastExponent : Int := -1074

def greatestExponent : Int := 971

/-- The exponent at which the mantissa of a positive fraction gets its full 53 bits, but no less
than the least one. -/
def fittingExponent (numerator denominator : Nat) : Int :=
  let estimate : Int := (numerator.log2 : Int) - denominator.log2 - 53
  let e := max estimate leastExponent
  let (up, down) := powerFraction 2 e
  if numerator * down / (denominator * up) < Nat.pow 2 53 then e else e + 1

def ofFraction (negative : Bool) (numerator denominator : Nat) : Binary64 :=
  let e := fittingExponent numerator denominator
  let (up, down) := powerFraction 2 e
  let m := roundDiv (numerator * down) (denominator * up)
  let (m, e) := if m = Nat.pow 2 53 then (Nat.pow 2 52, e + 1) else (m, e)
  if greatestExponent < e then .infinite negative else .finite negative m e

/-- The number nearest to `digits * 10 ^ exponent`. Decimal magnitudes beyond the range of the
format are decided by the number of digits. -/
def ofDecimal (negative : Bool) (digits : Nat) (exponent : Int) : Binary64 :=
  let magnitude : Int := (Nat.toDigits 10 digits).length + exponent
  if digits = 0 ∨ magnitude < -400 then .finite negative 0 leastExponent
  else if 400 < magnitude then .infinite negative
  else
    let (up, down) := powerFraction 10 exponent
    ofFraction negative (digits * up) down

def isZero : Binary64 → Bool
  | .finite _ m _ => m = 0
  | _ => false

def isOne (x : Binary64) : Bool := x = ofDecimal false 1 0

end Binary64

end LaurentCalc.Number
