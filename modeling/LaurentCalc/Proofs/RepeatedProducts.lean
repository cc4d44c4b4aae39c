import LaurentCalc.Proofs.Denominators
import LaurentCalc.Proofs.Termination

/-!
# Powers and repeated products

A power is taken at once of a single term, and of any other sum by multiplying the reduced base
and collecting like terms after every step. The product of as many equal factors is distributed over
the base as it stands and collects nothing. Both reduce to the power of the same polynomial, and
from the second factor on both need all names of the base to be the same.
-/

namespace LaurentCalc

set_option autoImplicit false

theorem TermSum.sameNames_term_self (t : Term) : (TermSum.term t).SameNames (.term t) :=
  fun _ hx _ hy => Term.eq_of_mem_names hx hy

/-- The attempt comes out as a power of a sum with one factor or more: as a sum with the power of
its polynomial, or without a rule if two factors have different names. -/
abbrev IsPower (p : TermSum) (n : Nat) : Attempt TermSum → Prop :=
  ComesTo (n = 1 ∨ p.SameNames p) (p.laurent ^ n)

namespace IsPower

open TermSum

theorem first (p : TermSum) : IsPower p 1 (.ok p) := .reduced (Or.inl rfl) (pow_one p.laurent).symm

/-- Collecting the terms of a power after every step changes nothing in its polynomial. -/
theorem power {n : Nat} (hn : 1 ≤ n) (p : TermSum) : IsPower p n (p.power n) := by
  by_cases hnames : p.SameNames p
  · obtain ⟨m, hm⟩ := exists_power (P := (· ∈ p.names)) (fun x y hx hy => hnames x hx y hy) n
      (over_iff.mpr fun _ hx => hx)
    rw [hm]
    exact .reduced (Or.inr hnames) (value_power hn hm)
  · obtain ⟨k, rfl⟩ := Nat.exists_eq_add_of_le' hn
    cases k with
    | zero =>
      rw [power_one]
      exact first p
    | succ k =>
      cases p with
      | term t => exact absurd (sameNames_term_self t) hnames
      | join s l r =>
        -- The base has no product with itself, so the first step has no rule.
        have hfirst := (IsProduct.mul (join s l r) (join s l r)).comesTo.eq_error_noRule hnames
        have hpower : (join s l r).power (k + 1 + 1) = .error .noRule := by
          rw [TermSum.power, Nat.add_sub_cancel, mulRepeatedly, hfirst, error_bind]
        rw [hpower]
        exact .noRule (not_or.mpr ⟨by omega, hnames⟩)

end IsPower

namespace Expr

/-- The product of equal factors, one or more of them, from the left; without a factor it is one. -/
def repeatedProduct (b : Expr) : Nat → Expr
  | 0 => number 1
  | 1 => b
  | n + 2 => scaling .mul (b.repeatedProduct (n + 1)) b

variable {b : Expr} {p : TermSum} {n : Nat}

/-- Where all names of the base are the same, there is a product of any number of factors. -/
theorem exists_reduce_repeatedProduct (hb : b.reduce = .ok p) (hnames : p.SameNames p) (n : Nat) :
    ∃ m, (b.repeatedProduct (n + 1)).reduce = .ok m ∧ m.Over (· ∈ p.names) ∧
      m.laurent = p.laurent ^ (n + 1) := by
  have hp : p.Over (· ∈ p.names) := TermSum.over_iff.mpr fun _ hx => hx
  induction n with
  | zero => exact ⟨p, hb, hp, (pow_one p.laurent).symm⟩
  | succ n ih =>
    obtain ⟨m, hm, hover, hlaurent⟩ := ih
    have hproduct := (isProduct_reduce_mul hm hb).comesTo
    have hsame : m.SameNames p := fun x hx y hy =>
      hnames x (TermSum.over_iff.mp hover x hx) y hy
    obtain ⟨m', hm'⟩ := hproduct.exists_iff.mpr hsame
    rw [hm'] at hproduct
    refine ⟨m', hm', over_reduce_mul hm hb hover hp hm', ?_⟩
    rw [hproduct.laurent_eq, hlaurent, ← pow_succ]

/-- Where two names of the base differ, there is no product of two factors or more. -/
theorem reduce_repeatedProduct_eq_noRule (hb : b.reduce = .ok p) (hnames : ¬p.SameNames p)
    (n : Nat) :
    (b.repeatedProduct (n + 2)).reduce = .error .noRule := by
  induction n with
  | zero => exact (isProduct_reduce_mul hb hb).comesTo.eq_error_noRule hnames
  | succ n ih =>
    rw [repeatedProduct, reduce, distribute]
    · rw [ih, error_bind]
    all_goals simp [repeatedProduct]

theorem isPower_reduce_repeatedProduct (hb : b.reduce = .ok p) (hn : 1 ≤ n) :
    IsPower p n (b.repeatedProduct n).reduce := by
  obtain ⟨k, rfl⟩ := Nat.exists_eq_add_of_le' hn
  by_cases hnames : p.SameNames p
  · obtain ⟨m, hm, -, hlaurent⟩ := exists_reduce_repeatedProduct hb hnames k
    rw [hm]
    exact .reduced (Or.inr hnames) hlaurent
  · cases k with
    | zero =>
      rw [repeatedProduct, hb]
      exact .first p
    | succ k =>
      rw [reduce_repeatedProduct_eq_noRule hb hnames k]
      exact .noRule (not_or.mpr ⟨by omega, hnames⟩)

theorem isPower_reduce_power (hb : b.reduce = .ok p) (hn : 1 ≤ n) :
    IsPower p n (binary .power b (number n)).reduce := by
  have hexponent : (number n).reduce = .ok (.number n) := by rw [reduce]
  rw [reduce_nonzero_power b hexponent (by omega), if_neg (by omega), hb, ok_bind,
    Int.toNat_natCast]
  exact .power hn p

/-- A power of an expression that reduces and the product of as many factors have the same text, or
both have no rule, which is so exactly if two factors or more have different names. -/
theorem reduce_power_eq_repeatedProduct (hb : b.reduce = .ok p) (hn : 1 ≤ n) :
    (binary .power b (number n)).reduce.map TermSum.render =
      (b.repeatedProduct n).reduce.map TermSum.render ∧
    (∀ o, (binary .power b (number n)).reduce = .error o → o = .noRule) ∧
    (∀ o, (b.repeatedProduct n).reduce = .error o → o = .noRule) ∧
    ((∃ m, (binary .power b (number n)).reduce = .ok m) ↔ n = 1 ∨ p.SameNames p) ∧
    (∀ m, (binary .power b (number n)).reduce = .ok m → m.laurent = p.laurent ^ n) := by
  have hpower := isPower_reduce_power hb hn
  have hproduct := isPower_reduce_repeatedProduct hb hn
  refine ⟨hpower.map_render_eq hproduct, fun o ho => ?_, fun o ho => ?_, hpower.exists_iff,
    fun m hm => ?_⟩
  · rw [ho] at hpower
    exact hpower.eq_noRule
  · rw [ho] at hproduct
    exact hproduct.eq_noRule
  · rw [hm] at hpower
    exact hpower.laurent_eq

set_option maxRecDepth 20000 in
/-- A cube, and a square that fails for a name with coefficient zero. -/
theorem reduce_power_eq_repeatedProduct_cube :
    (binary .power (additive .plus (.term (.named "x")) (number 2)) (number 3)).reduce.map
        TermSum.render =
      (scaling .mul
        (scaling .mul (additive .plus (.term (.named "x")) (number 2))
          (additive .plus (.term (.named "x")) (number 2)))
        (additive .plus (.term (.named "x")) (number 2))).reduce.map TermSum.render ∧
    (binary .power (additive .plus (.term (.named "x"))
      (additive .minus (.term (.named "y")) (.term (.named "y")))) (number 2)).reduce =
        .error .noRule := by
  have hsum : (additive .plus (.term (.named "x")) (number 2)).reduce =
      .ok (.join .plus (.term (.named "x")) (.number 2)) := by cbv
  have hzero : (additive .plus (.term (.named "x"))
      (additive .minus (.term (.named "y")) (.term (.named "y")))).reduce =
        .ok (.join .plus (.term (.named "x")) (.term (.monomial "y" 0 1))) := by cbv
  obtain ⟨hcube, -⟩ := @reduce_power_eq_repeatedProduct _ _ 3 hsum (by decide)
  obtain ⟨-, hrule, -, hexists, -⟩ := @reduce_power_eq_repeatedProduct _ _ 2 hzero (by decide)
  refine ⟨hcube, ?_⟩
  have hnames : ¬(2 = 1 ∨ (TermSum.join .plus (.term (.named "x"))
      (.term (.monomial "y" 0 1))).SameNames
        (.join .plus (.term (.named "x")) (.term (.monomial "y" 0 1)))) := by decide
  cases hsquare : (binary .power (additive .plus (.term (.named "x"))
      (additive .minus (.term (.named "y")) (.term (.named "y")))) (number 2)).reduce with
  | ok m => exact absurd (hexists.mp ⟨m, hsquare⟩) hnames
  | error o => rw [hrule o hsquare]

end Expr

end LaurentCalc
