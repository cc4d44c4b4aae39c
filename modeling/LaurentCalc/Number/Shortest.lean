import LaurentCalc.Number.Binary64

/-!
# Shortest decimal text

The text of a floating-point number has the fewest significant digits that read
back as the number, and of those the digits nearest to it. Numbers from 0.0001
up to below 10 ^ 16 are written positionally, all others with an exponent of at
least two digits.
-/

namespace LaurentCalc.Number

/-- A decimal number `digits * 10 ^ exponent`. -/
structure Decimal where
  digits : Nat
  exponent : Int
  deriving DecidableEq

/-- Compares `a * 10 ^ exponent` with `b * 2 ^ binary`. -/
def compareScaled (a : Nat) (exponent : Int) (b : Nat) (binary : Int) : Ordering :=
  let (tens, perTen) := powerFraction 10 exponent
  let (twos, perTwo) := powerFraction 2 binary
  compare (a * tens * perTwo) (b * twos * perTen)

/-- Whether a decimal rounds to `mantissa * 2 ^ exponent`. The interval of such decimals reaches
half way to both neighbours, and its ends belong to it if the mantissa is even. -/
def roundsTo (d : Decimal) (mantissa : Nat) (exponent : Int) : Bool :=
  let below := if mantissa = Nat.pow 2 52 ∧ Binary64.leastExponent < exponent then 1 else 2
  let low := compareScaled d.digits d.exponent (4 * mantissa - below) (exponent - 2)
  let high := compareScaled d.digits d.exponent (4 * mantissa + 2) (exponent - 2)
  if mantissa % 2 = 0 then low != .lt && high != .gt else low == .gt && high == .lt

/-- The integer part of `mantissa * 2 ^ binary / 10 ^ exponent`. -/
def floorScaled (mantissa : Nat) (binary exponent : Int) : Nat :=
  let (twos, perTwo) := powerFraction 2 binary
  let (tens, perTen) := powerFraction 10 exponent
  mantissa * twos * perTen / (perTwo * tens)

/-- The number of digits before the decimal point of a positive number; zero or less for numbers
below 0.1. -/
def pointPosition (mantissa : Nat) (binary : Int) : Int :=
  let estimate := ((mantissa.log2 : Int) + binary) * 30103 / 100000
  if compareScaled 1 estimate mantissa binary == .gt then estimate
  else if compareScaled 1 (estimate + 1) mantissa binary == .gt then estimate + 1
  else estimate + 2

/-- The nearest decimal with the given exponent that rounds to the number. -/
def candidate? (mantissa : Nat) (binary exponent : Int) : Option Decimal :=
  let t := floorScaled mantissa binary exponent
  let below : Decimal := ⟨t, exponent⟩
  let above : Decimal := ⟨t + 1, exponent⟩
  match roundsTo below mantissa binary, roundsTo above mantissa binary with
  | true, false => some below
  | false, true => some above
  | false, false => none
  | true, true =>
    match compareScaled (2 * t + 1) exponent (2 * mantissa) binary with
    | .lt => some above
    | .gt => some below
    | .eq => some (if t % 2 = 0 then below else above)

/-- The shortest decimal that rounds to a positive number, tried from the given digit count on. -/
def shortestFrom (mantissa : Nat) (binary point : Int) : Nat → Nat → Decimal
  | 0, count => ⟨floorScaled mantissa binary (point - count), point - count⟩
  | tries + 1, count =>
    match candidate? mantissa binary (point - count) with
    | some d => d
    | none => shortestFrom mantissa binary point tries (count + 1)

def padRight (width : Nat) (cs : List Char) : List Char :=
  cs ++ List.replicate (width - cs.length) '0'

/-- An exponent with its sign and at least two digits. -/
def exponentText (e : Int) : List Char :=
  let digits := Nat.toDigits 10 e.natAbs
  'e' :: (if e < 0 then '-' else '+') :: List.replicate (2 - digits.length) '0' ++ digits

/-- Significant digits, first to last, with the decimal point at a position among them. -/
def decimalText (digits : List Char) (point : Int) : List Char :=
  if point ≤ -4 ∨ 16 < point then
    let fraction := digits.tail
    digits.take 1 ++ (if fraction = [] then [] else '.' :: fraction) ++ exponentText (point - 1)
  else if point ≤ 0 then '0' :: '.' :: List.replicate (-point).toNat '0' ++ digits
  else
    let n := point.toNat
    let whole := padRight n (digits.take n)
    whole ++ '.' :: padRight 1 (digits.drop n)

def significant (d : Decimal) : List Char :=
  ((Nat.toDigits 10 d.digits).reverse.dropWhile (· = '0')).reverse

def positiveText (mantissa : Nat) (binary : Int) : List Char :=
  let d := shortestFrom mantissa binary (pointPosition mantissa binary) 17 1
  decimalText (significant d) ((Nat.toDigits 10 d.digits).length + d.exponent)

structure SpecialNames where
  nan : String
  infinity : String

def Binary64.text (names : SpecialNames) : Binary64 → List Char
  | .nan => names.nan.toList
  | .infinite negative => (if negative then ['-'] else []) ++ names.infinity.toList
  | .finite negative m e =>
    (if negative then ['-'] else []) ++ (if m = 0 then ['0', '.', '0'] else positiveText m e)

end LaurentCalc.Number
