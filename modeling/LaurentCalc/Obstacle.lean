import LaurentCalc.Expr.Dump

/-!
# Obstacles

Why an expression has no reduction. A missing rule is no failure of the
expression: the caller may still show it as it stands. The other two are
arithmetic failures.
-/

namespace LaurentCalc

inductive Obstacle where
  /-- No rule applies. -/
  | noRule
  /-- The numerator was to be divided by zero. -/
  | divisionByZero (numerator : Int)
  /-- Zero was to be raised to the power zero at the given node. -/
  | zeroToZero (power : Expr)
  deriving DecidableEq

/-- A value, or the obstacle that was met first. -/
abbrev Attempt (α : Type) := Except Obstacle α

/-- The second attempt, made only if no rule applied to the first. -/
@[macro_inline]
def Attempt.orIfNoRule {α : Type} (first second : Attempt α) : Attempt α :=
  match first with
  | .error .noRule => second
  | outcome => outcome

end LaurentCalc
