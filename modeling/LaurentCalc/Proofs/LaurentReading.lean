import LaurentCalc.Proofs.Interpretation
import LaurentCalc.Proofs.Laurent
import Mathlib.Algebra.GroupWithZero.Units.Basic

/-!
# Expressions as Laurent polynomials

Laurent polynomials interpret expressions once it is settled what a power with a
negative exponent is. With inverses for these powers every canonical phrase has the
polynomial of the sum that it was made from.
-/

namespace LaurentCalc

set_option autoImplicit false

noncomputable section

/-- Laurent polynomials, with powers that a given function raises. Quotients by polynomials other
than units count as zero, and an exponent counts by its constant term. -/
def Laurent.interpretation (raise : Laurent → Int → Laurent)
    (hraise : ∀ (a : Laurent) (n : Nat), raise a n = a ^ n) : Interpretation Laurent where
  quantity := quantity
  divide a b := a * Ring.inverse b
  exponentOf a := a.coeff 0
  raise := raise
  divide_mul a b := Ring.mul_inverse_cancel_right (b : Laurent) a b.isUnit
  exponentOf_intCast n := by rw [coeff_intCast, if_pos rfl]
  raise_natCast := hraise

/-- A power with any integer exponent; the negative ones invert the base. -/
def Laurent.power (a : Laurent) (n : Int) : Laurent :=
  if 0 ≤ n then a ^ n.toNat else Ring.inverse a ^ (-n).toNat

theorem Laurent.power_natCast (a : Laurent) (n : Nat) : power a n = a ^ n := by
  rw [power, if_pos (Int.natCast_nonneg n), Int.toNat_natCast]

theorem Laurent.power_unit (a : Laurentˣ) (n : Int) : power a n = (a ^ n : Laurentˣ) := by
  unfold power
  split
  · next hnonneg =>
    rw [← Units.val_pow_eq_pow_val, ← zpow_natCast, Int.toNat_of_nonneg hnonneg]
  · next hneg =>
    rw [Ring.inverse_unit, ← Units.val_pow_eq_pow_val, ← zpow_natCast,
      Int.toNat_of_nonneg (by omega), inv_zpow, zpow_neg, inv_inv]

/-- Laurent polynomials with inverses as powers with negative exponents. -/
def Laurent.reading : Interpretation Laurent := interpretation power power_natCast

/-- An expression without quotients that reduces, reduces to a sum of the same polynomial. -/
theorem TermSum.laurent_eq_of_reduce (raise : Laurent → Int → Laurent)
    (hraise : ∀ (a : Laurent) (n : Nat), raise a n = a ^ n) {e : Expr} {p : TermSum}
    (hdivisors : e.divisors = []) (h : e.reduce = .ok p) :
    p.laurent = (Laurent.interpretation raise hraise).value e := by
  have hadmits : (Laurent.interpretation raise hraise).Admits e := .of_divisors_eq_nil hdivisors
  exact Interpretation.value_reduceRecorded (Expr.yields_reduceRecorded hdivisors h) hadmits

end

end LaurentCalc
