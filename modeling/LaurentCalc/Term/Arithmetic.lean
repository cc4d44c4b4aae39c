import LaurentCalc.Obstacle

/-!
# Arithmetic of terms

Products and quotients of two terms. They are terms only if at most one name
is involved; quotients of coefficients are truncated toward zero.
-/

namespace LaurentCalc

def quotient (numerator denominator : Int) : Attempt Int :=
  if denominator = 0 then .error (.divisionByZero numerator)
  else .ok (numerator.tdiv denominator)

/-- Power of an integer by repeated squaring. -/
def raise (base : Int) (n : Nat) : Int :=
  if n = 0 then 1
  else
    let half := raise (base * base) (n / 2)
    if n % 2 = 0 then half else half * base
termination_by n

namespace Term

/-- The product of two terms, unless they have different names. -/
def mul : Term → Term → Attempt Term
  | .monomial x c e, .number v => .ok (.monomial x (c * v) e)
  | .number v, .monomial x c e => .ok (.monomial x (c * v) e)
  | .number v, .number w => .ok (.number (v * w))
  | .monomial x c e, .monomial y d f =>
    if x = y then .ok (.monomial x (c * d) (e + f)) else .error .noRule

/-- The truncated quotient of two terms, unless they have different names. -/
def div : Term → Term → Attempt Term
  | .monomial x c e, .number v => (quotient c v).map (.monomial x · e)
  | .number v, .monomial x c e => (quotient v c).map (.monomial x · (-e))
  | .number v, .number w => (quotient v w).map .number
  | .monomial x c e, .monomial y d f =>
    if x = y then (quotient c d).map (.monomial x · (e - f)) else .error .noRule

def scale : Scaling → Term → Term → Attempt Term
  | .mul => mul
  | .div => div

def power (n : Nat) : Term → Term
  | .number v => .number (raise v n)
  | .monomial x c e => .monomial x (raise c n) (e * n)

end Term

end LaurentCalc
