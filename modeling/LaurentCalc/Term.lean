/-!
# Terms

A term is an integer or a coefficient times a power of a named quantity. Both
coefficients and exponents are unbounded and may be zero or negative. Terms
are the summands from which every result is built.
-/

namespace LaurentCalc

/-- An integer, or `coefficient * name ^ exponent`. -/
inductive Term where
  | number (value : Int)
  | monomial (name : String) (coefficient exponent : Int)
  deriving DecidableEq

namespace Term

def named (name : String) : Term := .monomial name 1 1

/-- The value of a number, the coefficient of a monomial. -/
def weight : Term → Int
  | .number v => v
  | .monomial _ c _ => c

def neg : Term → Term
  | .number v => .number (-v)
  | .monomial x c e => .monomial x (-c) e

@[simp] theorem weight_neg (t : Term) : t.neg.weight = -t.weight := by cases t <;> rfl

@[simp] theorem neg_neg (t : Term) : t.neg.neg = t := by cases t <;> simp [neg]

end Term

end LaurentCalc
