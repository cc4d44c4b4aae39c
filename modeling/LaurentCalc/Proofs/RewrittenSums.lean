import LaurentCalc.Proofs.Rewriting
import LaurentCalc.TermSum.Power

/-!
# Rewriting sums of terms

Rules put trees together from results, and results are sums of terms. On such trees
the rules do what the operations on sums do: rewriting a sum unites like terms, and
rewriting the product or quotient of two sums works through them leaf by leaf.
-/

namespace LaurentCalc

set_option autoImplicit false

open Course (Leads)

def Attempt.tree (x : Attempt TermSum) : Attempt Expr := return (← x).toExpr

namespace Attempt

theorem tree_term (x : Attempt Term) :
    tree (return .term (← x)) = (return .term (← x) : Attempt Expr) := by
  cases x <;> rfl

theorem orIfNoRule_noRule {α : Type} (x : Attempt α) : x.orIfNoRule (.error .noRule) = x := by
  unfold orIfNoRule
  split <;> rfl

theorem tree_orIfNoRule (x y : Attempt TermSum) :
    (x.orIfNoRule y).tree = x.tree.orIfNoRule y.tree := by
  cases x with
  | ok p => rfl
  | error o => cases o <;> rfl

theorem eq_noRule_of_bind_return {α β : Type} {x : Attempt α} {f : α → β}
    (h : (return f (← x) : Attempt β) = .error .noRule) : x = .error .noRule := by
  cases x with
  | ok a => cases h
  | error o =>
    cases h
    rfl

end Attempt

namespace TermSum

theorem toExpr_injective {p q : TermSum} (h : p.toExpr = q.toExpr) : p = q := by
  have hsum := congrArg Expr.toSum h
  rw [Expr.toSum_toExpr, Expr.toSum_toExpr] at hsum
  exact Except.ok.inj hsum

theorem unite_toExpr (s : Sign) (p q : TermSum) :
    p.toExpr.unite s q.toExpr = (p.unite s q).toExpr := by
  cases p with
  | join => rfl
  | term t =>
    cases q with
    | join => rfl
    | term u =>
      simp only [toExpr, Expr.unite, unite]
      cases t.unite? s u <;> rfl

theorem collect_toExpr (p : TermSum) : p.toExpr.collect = p.collect.toExpr := by
  unfold Expr.collect
  rw [Expr.toSum_toExpr]

theorem united_unite {s : Sign} {p q : TermSum} (hp : p.united = p) (hq : q.united = q) :
    (unite s p q).united = unite s p q := by
  unfold unite
  split
  · next t u =>
    cases hunite : t.unite? s u with
    | some v => rfl
    | none => simp only [united, unite, hunite]
  · next hne =>
    rw [united, hp, hq, unite]
    exact hne

/-- Uniting like terms once unites them all. -/
theorem united_united (p : TermSum) : p.united.united = p.united := by
  induction p with
  | term t => rfl
  | join s l r ihl ihr => exact united_unite ihl ihr

theorem united_of_unite_eq_join {s s' : Sign} {p q l r : TermSum} (h : unite s p q = join s' l r) :
    s = s' ∧ p = l ∧ q = r := by
  unfold unite at h
  split at h
  · split at h
    · cases h
    · cases h
      exact ⟨rfl, rfl, rfl⟩
  · cases h
    exact ⟨rfl, rfl, rfl⟩

end TermSum

theorem Term.mul_comm (t u : Term) : t.mul u = u.mul t := by
  cases t with
  | number v =>
    cases u with
    | number w => rw [mul, mul, Int.mul_comm]
    | monomial y d f => rfl
  | monomial x c e =>
    cases u with
    | number w => rfl
    | monomial y d f =>
      simp only [mul, eq_comm (a := y)]
      split
      · next h => rw [h, Int.mul_comm, Int.add_comm]
      · rfl

/-- Equal terms always have a quotient, or fail to. -/
theorem Term.div_self_ne_noRule (t : Term) : t.div t ≠ .error .noRule := by
  intro h
  have hquotient : ∀ {a b : Int} {f : Int → Term},
      (quotient a b).map f ≠ .error .noRule := by
    intro a b f h
    unfold quotient at h
    split at h <;> cases h
  cases t with
  | number v => exact hquotient h
  | monomial x c e =>
    rw [div, if_pos rfl] at h
    exact hquotient h

/-- Where a term has no quotient by a sum, the sum does not unite to that term. -/
theorem TermSum.divTerm_orIfNoRule (t : Term) (q : TermSum) :
    (divTerm t q).orIfNoRule (if term t = q.united then .ok (number 1) else .error .noRule) =
      divTerm t q := by
  by_cases heq : term t = q.united
  · cases hdiv : divTerm t q with
    | ok r => rfl
    | error o =>
      have hne : o ≠ .noRule := by
        rintro rfl
        unfold divTerm at hdiv
        rw [← heq] at hdiv
        exact t.div_self_ne_noRule (Attempt.eq_noRule_of_bind_return hdiv)
      cases o with
      | noRule => exact absurd rfl hne
      | divisionByZero n => rfl
      | zeroToZero e => rfl
  · rw [if_neg heq, Attempt.orIfNoRule_noRule]

namespace Course

variable {c : Course Expr} {x : Attempt TermSum}

theorem Leads.bind_tree {f : Expr → Course Expr} {g : TermSum → Attempt TermSum}
    (h : Leads c x.tree) (hf : ∀ p, x = .ok p → Leads (f p.toExpr) (g p).tree) :
    Leads (c >>= f) (x >>= g).tree := by
  cases x with
  | error o => exact h.bind_error
  | ok p => exact h.bind_ok (hf p rfl)

theorem Leads.return_tree (p : TermSum) : Leads (pure p.toExpr) (Attempt.tree (.ok p)) :=
  Leads.done _

theorem Leads.noRule : Leads noRule (Attempt.tree (.error .noRule)) := Leads.done _

end Course

namespace Expr

open Course

variable {e l r : Expr} {p q : TermSum}

theorem leads_additive {s : Sign} {x y : Attempt TermSum} (hl : Leads l.rule x.tree)
    (hr : Leads r.rule y.tree) :
    Leads (rule (.additive s l r)) (x >>= fun p => y >>= fun q => .ok (p.unite s q)).tree := by
  refine hl.rewrite.bind_tree fun p _ => hr.rewrite.bind_tree fun q _ => ?_
  rw [TermSum.unite_toExpr]
  exact Leads.return_tree _

/-- A sum of terms is rewritten to the sum with like terms united. -/
theorem leads_toExpr (p : TermSum) : Leads p.toExpr.rule (.ok p.united.toExpr) := by
  induction p with
  | term t => exact Leads.done _
  | join s l r ihl ihr =>
    exact leads_additive (x := .ok l.united) (y := .ok r.united) ihl ihr

theorem leads_minus_term {t : Term} (h : Leads e.rule (.ok (.term t))) :
    Leads (rule (.unary (.sign .minus) e)) (.ok (.term t.neg)) :=
  h.rewrite.bind_ok (Leads.done _)

theorem leads_minus_additive {s : Sign} {l' r' : Expr} (h : Leads e.rule (.ok (.additive s l r)))
    (hl : Leads (rule (.unary (.sign .minus) l)) (.ok l'))
    (hr : Leads (rule (.unary (.sign .minus) r)) (.ok r')) :
    Leads (rule (.unary (.sign .minus) e)) (.ok (.additive s l' r')) := by
  apply h.rewrite.bind_ok
  apply hl.rewrite.bind_ok
  apply hr.rewrite.bind_ok
  exact Leads.done _

theorem leads_minus_of_united (hp : p.united = p) :
    Leads (rule (.unary (.sign .minus) p.toExpr)) (.ok p.neg.toExpr) := by
  induction p with
  | term t => exact leads_minus_term (Leads.done _)
  | join s l r ihl ihr =>
    obtain ⟨-, hl, hr⟩ := TermSum.united_of_unite_eq_join hp
    have hself := leads_toExpr (.join s l r)
    rw [hp] at hself
    exact leads_minus_additive hself (ihl hl) (ihr hr)

/-- Below the root of a sum the minus sign meets sides whose like terms get united first. -/
theorem leads_minus_toExpr (p : TermSum) :
    Leads (rule (.unary (.sign .minus) p.toExpr)) (.ok p.united.neg.toExpr) := by
  have hself := leads_toExpr p
  have hunited := p.united_united
  cases hp : p.united with
  | term t =>
    rw [hp] at hself
    exact leads_minus_term hself
  | join s l r =>
    rw [hp] at hself hunited
    obtain ⟨-, hl, hr⟩ := TermSum.united_of_unite_eq_join hunited
    exact leads_minus_additive hself (leads_minus_of_united hl) (leads_minus_of_united hr)

theorem leads_minus (h : Leads e.rule (.ok p.toExpr)) :
    Leads (rule (.unary (.sign .minus) e)) (.ok p.negated.toExpr) := by
  cases p with
  | term t => exact leads_minus_term h
  | join s l r => exact leads_minus_additive h (leads_minus_toExpr l) (leads_minus_toExpr r)

theorem leads_product {c : Course Expr} {x : Attempt Expr} (hc : distribution? .mul l r = some c)
    (h : Leads c x) : Leads (rule (.scaling .mul l r)) x := by
  simp only [rule, productRule, hc]
  exact h

theorem leads_sameOperands {x y : Attempt TermSum} (hl : Leads l.rule x.tree)
    (hr : Leads r.rule y.tree) :
    Leads (sameOperands l r) (x >>= fun p => y >>= fun q =>
      if p = q then .ok (.number 1) else .error .noRule).tree := by
  refine hl.rewrite.bind_tree fun p _ => hr.rewrite.bind_tree fun q _ => ?_
  by_cases heq : p = q
  · rw [if_pos heq, if_pos (congrArg TermSum.toExpr heq)]
    exact Leads.return_tree (.number 1)
  · rw [if_neg heq, if_neg (mt TermSum.toExpr_injective heq)]
    exact Leads.noRule

theorem leads_quotient {c : Course Expr} {x y z : Attempt TermSum}
    (hc : distribution? .div l r = some c) (h : Leads c x.tree) (hl : Leads l.rule y.tree)
    (hr : Leads r.rule z.tree) :
    Leads (rule (.scaling .div l r))
      (x.orIfNoRule (y >>= fun p => z >>= fun q =>
        if p = q then .ok (.number 1) else .error .noRule)).tree := by
  rw [Attempt.tree_orIfNoRule]
  simp only [rule, quotientRule, hc]
  exact h.orIfNoRule fun _ => leads_sameOperands hl hr

theorem leads_product_terms (t u : Term) :
    Leads (rule (.scaling .mul (.term t) (.term u))) (Attempt.tree (return .term (← t.mul u))) := by
  rw [Attempt.tree_term]
  exact Leads.done _

theorem leads_quotient_terms (t u : Term) :
    Leads (rule (.scaling .div (.term t) (.term u))) (Attempt.tree (return .term (← t.div u))) := by
  rw [Attempt.tree_term]
  -- Terms without a quotient differ, so the comparison of the two operands is in vain.
  have hrule : Leads (rule (.scaling .div (.term t) (.term u)))
      (Attempt.orIfNoRule (return .term (← t.div u)) (.error .noRule)) := by
    refine (Leads.done _).orIfNoRule fun hnone => ?_
    have hne : t ≠ u := by
      rintro rfl
      exact t.div_self_ne_noRule (Attempt.eq_noRule_of_bind_return hnone)
    rw [if_neg hne]
    exact Leads.noRule
  rw [Attempt.orIfNoRule_noRule] at hrule
  exact hrule

theorem leads_sides {s : Scaling} {a : Sign} {x y : Expr} {u v : Attempt TermSum}
    (hx : Leads (rule (.scaling s x r)) u.tree) (hy : Leads (rule (.scaling s y r)) v.tree) :
    Leads (scaleSides s a x y r) (u >>= fun p => v >>= fun q => .ok (.join a p q)).tree :=
  hx.rewrite.bind_tree fun p _ => hy.rewrite.bind_tree fun q _ => Leads.return_tree (.join a p q)

theorem distribution?_additive (s : Scaling) (a : Sign) (x y : Expr) (hr : r.isSigned = false) :
    distribution? s (.additive a x y) r = some (scaleSides s a x y r) := by
  cases r with
  | unary => cases hr
  | term | binary => rfl

theorem isSigned_toExpr (p : TermSum) : p.toExpr.isSigned = false := by
  cases p <;> rfl

theorem leads_product_term (q : TermSum) (t : Term) :
    Leads (rule (.scaling .mul q.toExpr (.term t))) (q.mapTerms (·.mul t)).tree := by
  induction q with
  | term u => exact leads_product_terms u t
  | join s l r ihl ihr =>
    exact leads_product (distribution?_additive .mul s _ _ rfl) (leads_sides ihl ihr)

/-- The product of two sums is rewritten to the product of each term by each term. -/
theorem leads_product_toExpr (p q : TermSum) :
    Leads (rule (.scaling .mul p.toExpr q.toExpr)) (p.mul q).tree := by
  induction p with
  | term t =>
    cases q with
    | term u =>
      rw [TermSum.mul, TermSum.mapTerms, u.mul_comm]
      exact leads_product_terms t u
    | join s l r =>
      exact leads_product rfl (leads_sides (leads_product_term l t) (leads_product_term r t))
  | join s l r ihl ihr =>
    exact leads_product (distribution?_additive .mul s _ _ (isSigned_toExpr q))
      (leads_sides ihl ihr)

theorem leads_divideByTerm (t : Term) {x : Attempt TermSum} (hr : Leads r.rule x.tree) :
    Leads (divideByTerm (.term t) r) (Attempt.tree (do
      match ← x with
      | .term u => return .term (← t.div u)
      | .join .. => .error .noRule)) := by
  refine hr.rewrite.bind_tree fun q _ => ?_
  cases q with
  | term u => exact (leads_quotient_terms t u).rewrite
  | join => exact Leads.noRule

theorem leads_quotient_term (t : Term) (q : TermSum) :
    Leads (rule (.scaling .div (.term t) q.toExpr)) (TermSum.divTerm t q).tree := by
  cases q with
  | term u => exact leads_quotient_terms t u
  | join s l r =>
    have hnumerator : Leads (rule (.term t)) (Attempt.tree (.ok (.term t))) := Leads.done _
    have hdivisor : Leads (rule (TermSum.toExpr (.join s l r)))
        (Attempt.tree (.ok (TermSum.united (.join s l r)))) := leads_toExpr (.join s l r)
    rw [← TermSum.divTerm_orIfNoRule]
    exact leads_quotient rfl (leads_divideByTerm t hdivisor) hnumerator hdivisor

/-- The quotient of two sums is rewritten to the quotient taken leaf by leaf. -/
theorem leads_quotient_toExpr (p q : TermSum) :
    Leads (rule (.scaling .div p.toExpr q.toExpr)) (p.div q).tree := by
  induction p with
  | term t => exact leads_quotient_term t q
  | join s l r ihl ihr =>
    exact leads_quotient (y := .ok (TermSum.united (.join s l r))) (z := .ok q.united)
      (distribution?_additive .div s _ _ (isSigned_toExpr q)) (leads_sides ihl ihr) (leads_toExpr _)
      (leads_toExpr q)

theorem leads_scaling_toExpr (s : Scaling) (p q : TermSum) :
    Leads (rule (.scaling s p.toExpr q.toExpr)) (p.scale s q).tree := by
  cases s with
  | mul => exact leads_product_toExpr p q
  | div => exact leads_quotient_toExpr p q

theorem leads_multiplyRepeatedly (factor : TermSum) (n : Nat) (product : TermSum) :
    Leads (multiplyRepeatedly factor.toExpr n product.toExpr)
      (TermSum.mulRepeatedly factor n product).tree := by
  induction n generalizing product with
  | zero => exact Leads.return_tree product
  | succ n ih =>
    refine (leads_product_toExpr product factor).rewrite.bind_tree fun next _ => ?_
    rw [TermSum.collect_toExpr]
    exact ih next.collect

end Expr

end LaurentCalc
