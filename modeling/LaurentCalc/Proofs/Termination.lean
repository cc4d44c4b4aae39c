import LaurentCalc.Proofs.Divisions
import LaurentCalc.Proofs.RewrittenSums
import LaurentCalc.Proofs.Value
import LaurentCalc.Rule

/-!
# Rewriting ends

Whatever the tree, rewriting it comes to an end after finitely many rewritings, and
to the outcome of reduction. So the relation between a tree and the trees that its
rule asks for is well-founded, although these may be larger than the tree itself.
-/

namespace LaurentCalc

set_option autoImplicit false

namespace TermSum

theorem power_one (p : TermSum) : p.power 1 = .ok p := by
  cases p with
  | join s l r => rfl
  | term t =>
    cases t with
    | number v => rw [power, Term.power, raise_eq_pow, pow_one]
    | monomial x c e => rw [power, Term.power, raise_eq_pow, pow_one, Int.natCast_one, Int.mul_one]

theorem mul_term (q : TermSum) (t : Term) : q.mul (.term t) = (TermSum.term t).mul q := by
  induction q with
  | term u => rw [mul, mul, mapTerms, mapTerms, u.mul_comm]
  | join s l r ihl ihr =>
    have hmul : (join s l r).mul (.term t) = (do
        let l' ← l.mul (.term t)
        let r' ← r.mul (.term t)
        return join s l' r') := rfl
    rw [hmul, ihl, ihr]
    rfl

end TermSum

namespace Expr

open Course

variable {e l r : Expr} {x y : Attempt TermSum}

theorem leads_plus (h : Leads e.rule x.tree) : Leads (rule (.unary (.sign .plus) e)) x.tree := by
  rw [← bind_pure x]
  refine h.rewrite.bind_tree fun p _ => ?_
  cases p with
  | term t => exact Leads.return_tree (.term t)
  | join s l r => exact Leads.return_tree (.join s l r)

theorem leads_minus_attempt (h : Leads e.rule x.tree) :
    Leads (rule (.unary (.sign .minus) e)) (x >>= fun p => .ok p.negated).tree := by
  cases x with
  | ok p => exact leads_minus h
  | error o => exact h.rewrite.bind_error

theorem leads_rescale (s : Scaling) (hl : Leads l.rule x.tree) (hr : Leads r.rule y.tree) :
    Leads (rescale s l r) (x >>= fun p => y >>= fun q => p.scale s q).tree :=
  hl.rewrite.bind_tree fun p _ => hr.rewrite.bind_tree fun q _ =>
    (leads_scaling_toExpr s p q).rewrite

/-- Where a sign stands at the root of an operand, none is left once both are rewritten. -/
theorem leads_rescaleUnsigned (s : Scaling) (hl : Leads l.rule x.tree) (hr : Leads r.rule y.tree) :
    Leads (rescaleUnsigned s l r) (x >>= fun p => y >>= fun q => p.scale s q).tree := by
  refine hl.rewrite.bind_tree fun p _ => hr.rewrite.bind_tree fun q _ => ?_
  rw [isSigned_toExpr, isSigned_toExpr, Bool.or_self, if_neg Bool.false_ne_true]
  exact (leads_scaling_toExpr s p q).rewrite

theorem leads_rescaleSwapped (t : Term) (hr : Leads r.rule y.tree) :
    Leads (rescaleSwapped (.term t) r) (y >>= fun q => (TermSum.term t).mul q).tree := by
  have hterm : Leads (rule (.term t)) (Attempt.tree (.ok (.term t))) := Leads.done _
  refine hterm.rewrite.bind_tree (g := fun p => y >>= fun q => p.mul q) fun p hp => ?_
  cases hp
  refine hr.rewrite.bind_tree fun q _ => ?_
  rw [← q.mul_term]
  exact (leads_product_toExpr q (.term t)).rewrite

/-- Operands that are neither sums nor both terms are rewritten before they are scaled. -/
theorem leads_distribution (s : Scaling) (hterms : ∀ t u, l = .term t → r ≠ .term u)
    (hright : ∀ t a b c, l = .term t → r ≠ .additive a b c)
    (hleft : ∀ a b c, l ≠ .additive a b c) (hl : Leads l.rule l.reduce.tree)
    (hr : Leads r.rule r.reduce.tree) :
    ∃ c, distribution? s l r = some c ∧
      Leads c (l.reduce >>= fun p => r.reduce >>= fun q => p.scale s q).tree := by
  cases l with
  | unary => exact ⟨_, rfl, leads_rescaleUnsigned s hl hr⟩
  | binary op a b =>
    cases r with
    | unary => exact ⟨_, by cases op <;> rfl, leads_rescaleUnsigned s hl hr⟩
    | term | binary =>
      refine ⟨_, ?_, leads_rescale s hl hr⟩
      cases op with
      | additive a' => exact absurd rfl (hleft a' a b)
      | scaling | power | unknown => rfl
  | term t =>
    cases r with
    | unary => exact ⟨_, rfl, leads_rescaleUnsigned s hl hr⟩
    | term u => exact absurd rfl (hterms t u rfl)
    | binary op a b =>
      have hop : ∀ a', op ≠ .additive a' := by
        rintro a' rfl
        exact hright t a' a b rfl rfl
      cases s with
      | div =>
        refine ⟨_, ?_, leads_rescale .div hl hr⟩
        cases op with
        | additive a' => exact absurd rfl (hop a')
        | scaling | power | unknown => rfl
      | mul =>
        rw [reduce]
        refine ⟨_, ?_, leads_rescaleSwapped t hr⟩
        cases op with
        | additive a' => exact absurd rfl (hop a')
        | scaling | power | unknown => rfl

theorem zeroPower_eq (e : Expr) (x : Attempt TermSum) :
    zeroPower e x = (x >>= fun base =>
      if base.isZeroTerm then .error (.zeroToZero e) else .ok (.number 1)).orIfNoRule
        (.ok (.number 1)) := by
  cases x with
  | error o => cases o <;> rfl
  | ok base =>
    rw [zeroPower, ok_bind]
    split <;> rfl

theorem leads_zerothPower (hl : Leads l.rule x.tree) :
    Leads (zerothPower l r) (zeroPower (.binary .power l r) x).tree := by
  rw [zeroPower_eq, Attempt.tree_orIfNoRule]
  refine Leads.orIfNoRule (hl.rewrite.bind_tree fun base _ => ?_) fun _ =>
    Leads.return_tree (.number 1)
  cases base with
  | join => exact Leads.return_tree (.number 1)
  | term t =>
    by_cases hzero : t.weight = 0
    · simp only [TermSum.isZeroTerm, TermSum.toExpr, hzero, decide_true, if_true]
      exact Leads.done _
    · simp only [TermSum.isZeroTerm, TermSum.toExpr, hzero, decide_false, if_false,
        Bool.false_eq_true]
      exact Leads.return_tree (.number 1)

theorem leads_higherPower (n : Nat) (hl : Leads l.rule x.tree) :
    Leads (higherPower l n) (x >>= fun p => p.power n).tree := by
  refine hl.rewrite.bind_tree fun base _ => ?_
  cases base with
  | term t => exact Leads.return_tree (.term (t.power n))
  | join s l r => exact leads_multiplyRepeatedly (.join s l r) (n - 1) (.join s l r)

theorem leads_powerRule (hl : Leads l.rule x.tree) (hr : Leads r.rule y.tree) :
    Leads (powerRule l r) (Attempt.tree (do
      match ← y with
      | .term (.number n) =>
        if n < 0 then .error .noRule
        else if n = 0 then zeroPower (.binary .power l r) x
        else (← x).power n.toNat
      | _ => .error .noRule)) := by
  refine hr.rewrite.bind_tree fun q _ => ?_
  cases q with
  | join => exact Leads.noRule
  | term t =>
    cases t with
    | monomial => exact Leads.noRule
    | number n =>
      rcases lt_trichotomy n 0 with hneg | rfl | hpos
      · have hne : n ≠ 0 ∧ n ≠ 1 ∧ ¬1 < n := by omega
        simp only [TermSum.toExpr, hne, hneg, if_true, if_false]
        exact Leads.noRule
      · exact leads_zerothPower hl
      · have hne : ¬n < 0 ∧ n ≠ 0 := by omega
        simp only [TermSum.toExpr, hne, if_false]
        by_cases hone : n = 1
        · have hpower : (x >>= fun p => p.power n.toNat) = x := by
            simp only [hone, Int.toNat_one, TermSum.power_one]
            exact bind_pure x
          rw [if_pos hone, hpower]
          exact hl.rewrite
        · rw [if_neg hone, if_pos (by omega)]
          exact leads_higherPower n.toNat hl

/-- Rewriting comes to the outcome of reduction. -/
theorem leads_reduce (e : Expr) : Leads e.rule e.reduce.tree := by
  -- Two terms are left to the rule that distributes nothing; any other operands are distributed.
  induction e using (reduceInduction fun s l r =>
    (∃ t u, l = .term t ∧ r = .term u) ∨
      ∃ c, distribution? s l r = some c ∧ Leads c (distribute s l r).tree) with
  | term t =>
    rw [reduce]
    exact Leads.done _
  | plus e ih =>
    rw [reduce]
    exact leads_plus ih
  | minus e ih =>
    rw [reduce]
    exact leads_minus_attempt ih
  | unknownSign =>
    rw [reduce]
    exact Leads.noRule
  | additive s l r ihl ihr =>
    rw [reduce]
    exact leads_additive ihl ihr
  | mul l r ih =>
    rw [reduce]
    rcases ih with ⟨t, u, rfl, rfl⟩ | ⟨c, hc, h⟩
    · rw [distribute]
      exact leads_product_terms t u
    · exact leads_product hc h
  | div l r ih ihl ihr =>
    rw [reduce]
    rcases ih with ⟨t, u, rfl, rfl⟩ | ⟨c, hc, h⟩
    · rw [reduce, reduce, distribute]
      have hquotient := leads_quotient_term t (.term u)
      rw [← TermSum.divTerm_orIfNoRule] at hquotient
      exact hquotient
    · exact leads_quotient hc h ihl ihr
  | power l r ihr ihl =>
    rw [reduce]
    exact leads_powerRule ihl ihr
  | unknownOperator =>
    rw [reduce]
    exact Leads.noRule
  | terms s t u => exact Or.inl ⟨t, u, rfl, rfl⟩
  | termMulSum t a x y ihx ihy =>
    right
    refine ⟨_, rfl, ?_⟩
    rw [distribute]
    exact leads_sides ihx ihy
  | termDivSum t a x y ih =>
    right
    refine ⟨_, rfl, ?_⟩
    rw [distribute]
    exact leads_divideByTerm t ih
  | sumSigned s a x y op e ihl ihr =>
    right
    rw [distribute]
    exact ⟨_, rfl, leads_rescaleUnsigned s ihl ihr⟩
  | sum s a x y r hr ihx ihy =>
    right
    have hsigned : r.isSigned = false := by
      cases r with
      | unary op e => exact absurd rfl (hr op e)
      | term | binary => rfl
    refine ⟨_, distribution?_additive s a x y hsigned, ?_⟩
    rw [distribute]
    · exact leads_sides ihx ihy
    · exact hr
  | operands s l r h₁ h₂ h₃ h₄ ihl ihr =>
    right
    rw [distribute]
    · exact leads_distribution s h₁ h₂ h₄ ihl ihr
    all_goals assumption

/-- A rewriting asks only for rewritings that end earlier than itself. -/
theorem acc_asks {e : Expr} {n : Nat} {outcome : Attempt Expr} (h : Ends e.rule n outcome) :
    Acc (fun e' e => Asks (rule e) e') e := by
  -- The trees grow, so the induction is on the number of rewritings.
  induction n using Nat.strongRecOn generalizing e outcome with
  | ind n ih =>
    constructor
    intro e' ha
    obtain ⟨m, first, hlt, hends⟩ := h.of_asks ha
    exact ih m hlt hends

/-- Rewriting a tree comes to one outcome, that of reduction, after some number of rewritings. -/
theorem exists_ends_iff (e : Expr) :
    ∃ n, ∀ m outcome, Ends e.rule m outcome ↔ m = n ∧ outcome = Rule.reduceTree e := by
  obtain ⟨n, hends⟩ := leads_reduce e
  refine ⟨n, fun m outcome => ⟨fun h => h.unique hends, ?_⟩⟩
  rintro ⟨rfl, rfl⟩
  exact hends

/-- The rewriting of any tree asks for no endless series of rewritings: it comes to exactly one
outcome, the one of reduction, after a fixed number of rewritings. -/
theorem rewriting_terminates :
    WellFounded (fun e' e => Asks (rule e) e') ∧
      ∀ e : Expr, ∃ n, ∀ m outcome,
        Ends e.rule m outcome ↔ m = n ∧ outcome = Rule.reduceTree e := by
  refine ⟨⟨fun e => ?_⟩, exists_ends_iff⟩
  obtain ⟨n, hends⟩ := leads_reduce e
  exact acc_asks hends

end Expr

end LaurentCalc
