import LaurentCalc.Collected

/-!
# Powers of sums

A power of a single term is taken at once. Any other sum is multiplied by itself
step by step, and its like terms are collected after every step.
-/

namespace LaurentCalc.TermSum

/-- Multiplies a product further by the same factor, collecting after every step. -/
def mulRepeatedly (factor : TermSum) : Nat → TermSum → Attempt TermSum
  | 0, product => .ok product
  | n + 1, product => do
    let next ← product.mul factor
    mulRepeatedly factor n next.collect

def power (n : Nat) : TermSum → Attempt TermSum
  | .term t => .ok (.term (t.power n))
  | .join s l r => mulRepeatedly (.join s l r) (n - 1) (.join s l r)

end LaurentCalc.TermSum
