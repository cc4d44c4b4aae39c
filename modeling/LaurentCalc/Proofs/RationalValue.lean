import LaurentCalc.Proofs.Interpretation
import Mathlib.Algebra.Order.Floor.Ring
import Mathlib.Data.Rat.Floor
import Mathlib.Tactic.NormNum

/-!
# Rational values

With a nonzero rational number for every name an expression has a rational value.
Reduction keeps it wherever no division cuts anything off, and so it does for every
expression without quotients.
-/

namespace LaurentCalc

set_option autoImplicit false

/-- The reading of expressions in the rational numbers. Powers have integer exponents; one that is
no integer would be rounded down. -/
def Interpretation.rational (ρ : String → ℚˣ) : Interpretation ℚ where
  quantity := ρ
  divide := fun a b => a / b
  exponentOf := fun a => ⌊a⌋
  raise := fun a n => a ^ n
  divide_mul := fun a b => mul_div_cancel_right₀ a b.ne_zero
  exponentOf_intCast := Int.floor_intCast
  raise_natCast := zpow_natCast

namespace Expr

/-- The rational value of an expression, given a nonzero value for every name. -/
def rationalValue (ρ : String → ℚˣ) (e : Expr) : ℚ := (Interpretation.rational ρ).value e

variable {ρ : String → ℚˣ} {e : Expr} {p : TermSum}

/-- An exact reduction keeps the rational value if no divisor is zero, and without quotients every
reduction does. -/
theorem rationalValue_reduce (ρ : String → ℚˣ) (h : e.reduce = .ok p) :
    ((∀ d ∈ e.divisors, d.rationalValue ρ ≠ 0) → (∀ d ∈ e.reduceRecorded.divisions, d.Exact) →
      p.toExpr.rationalValue ρ = e.rationalValue ρ) ∧
    (e.divisors = [] → p.toExpr.rationalValue ρ = e.rationalValue ρ) := by
  unfold rationalValue
  rw [Interpretation.value_toExpr]
  constructor
  · intro hdivisors hexact
    have hyields : e.reduceRecorded.Yields p := ⟨e.outcome_reduceRecorded.trans h, hexact⟩
    exact Interpretation.value_reduceRecorded hyields fun d hd => (hdivisors d hd).isUnit
  · intro hnone
    exact Interpretation.value_reduceRecorded (yields_reduceRecorded hnone h)
      (.of_divisors_eq_nil hnone)

/-- The quotient of `6 * x ^ 2 - 4 * x` by `2 * x` is exact; its second term has exponent zero. -/
theorem rationalValue_reduce_exact_quotient :
    rationalValue (fun _ => Units.mk0 3 (by norm_num))
        (.additive .minus (.term (.monomial "x" 3 1)) (.term (.monomial "x" 2 0))) =
      rationalValue (fun _ => Units.mk0 3 (by norm_num))
        (.scaling .div
          (.additive .minus (.term (.monomial "x" 6 2)) (.term (.monomial "x" 4 1)))
          (.term (.monomial "x" 2 1))) :=
  (rationalValue_reduce (p := .join .minus (.term (.monomial "x" 3 1)) (.term (.monomial "x" 2 0)))
    (fun _ => Units.mk0 3 (by norm_num)) (by cbv)).1
    (by simp [divisors, rationalValue, Interpretation.value, Term.value, Interpretation.rational])
    (by
      have : (reduceRecorded (.scaling .div
          (.additive .minus (.term (.monomial "x" 6 2)) (.term (.monomial "x" 4 1)))
          (.term (.monomial "x" 2 1)))).divisions = [⟨6, 2⟩, ⟨4, 2⟩] := by cbv
      rw [this]
      decide)

end Expr

end LaurentCalc
