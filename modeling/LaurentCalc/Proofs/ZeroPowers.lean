import LaurentCalc.Proofs.Exponents
import LaurentCalc.Proofs.Laurent

/-!
# Zero to the power zero

A base that stands for zero is refused under the exponent zero as soon as it reduces to a
single term. Where the terms of a zero are left apart, they are not looked at together, and
the power is one. Sums of like terms that no product or quotient is distributed over always
reduce to a single term.
-/

namespace LaurentCalc

set_option autoImplicit false

theorem Term.laurent_eq_zero_iff {t : Term} : (TermSum.term t).laurent = 0 ↔ t.weight = 0 := by
  refine ⟨fun h => ?_, fun h => value_eq_zero h⟩
  cases t with
  | number v =>
    have hcoeff := Laurent.coeff_intCast v 0
    rw [if_pos rfl] at hcoeff
    rw [weight, ← hcoeff]
    exact congrArg (fun a : Laurent => a.coeff 0) h
  | monomial x c e =>
    have hcoeff : (AddMonoidAlgebra.single (Finsupp.single x e) c : Laurent).coeff
        (Finsupp.single x e) = c := by
      rw [AddMonoidAlgebra.coeff_single, Finsupp.single_eq_same]
    rw [weight, ← hcoeff, ← value_monomial]
    exact congrArg (fun a : Laurent => a.coeff (Finsupp.single x e)) h

namespace TermSum

variable {p q m : TermSum}

theorem isZeroTerm_iff (h : p.laurent = 0) : p.isZeroTerm = true ↔ p.IsTerm := by
  cases p with
  | term t =>
    have hweight := Term.laurent_eq_zero_iff.mp h
    exact ⟨fun _ => trivial, fun _ => decide_eq_true hweight⟩
  | join s l r => exact ⟨fun hzero => Bool.noConfusion hzero, False.elim⟩

theorem isTerm_div (hp : p.IsTerm) (h : p.div q = .ok m) : m.IsTerm := by
  obtain ⟨t, rfl⟩ := isTerm_iff.mp hp
  rw [div, divTerm] at h
  split at h
  · obtain ⟨v, -, hm⟩ := bind_eq_ok_iff.mp h
    obtain rfl := Except.ok.inj hm
    trivial
  · cases h

theorem isTerm_scale {s : Scaling} (hp : p.IsTerm) (hq : q.IsTerm) (h : scale s p q = .ok m) :
    m.IsTerm := by
  cases s with
  | mul => exact (isTerm_mul h).mpr ⟨hp, hq⟩
  | div => exact isTerm_div hp h

theorem isTerm_power_of_isTerm {n : Nat} (hp : p.IsTerm) (h : p.power n = .ok q) : q.IsTerm := by
  obtain ⟨t, rfl⟩ := isTerm_iff.mp hp
  obtain rfl := Except.ok.inj h
  trivial

end TermSum

namespace Expr

/-- The sides of every sum reduce to like terms, and nothing is distributed over a sum. -/
def Gathered : Expr → Prop
  | .term _ => True
  | .unary _ e => e.Gathered
  | .binary (.additive s) l r => l.Gathered ∧ r.Gathered ∧
    ∀ t u, l.reduce = .ok (.term t) → r.reduce = .ok (.term u) → (t.unite? s u).isSome
  | .binary (.scaling s) l r => distributes s l r = false ∧ l.Gathered ∧ r.Gathered
  | .binary .power l _ => l.Gathered
  | .binary (.unknown _) _ _ => True

variable {b e l r : Expr} {p m : TermSum}

theorem isTerm_distribute {s : Scaling} (hd : distributes s l r = false)
    (hl : ∀ p, l.reduce = .ok p → p.IsTerm) (hr : ∀ p, r.reduce = .ok p → p.IsTerm)
    (h : distribute s l r = .ok m) : m.IsTerm := by
  unfold distribute at h
  split at h
  · obtain ⟨v, -, hm⟩ := bind_eq_ok_iff.mp h
    obtain rfl := Except.ok.inj hm
    trivial
  · cases s with
    | mul => cases hd
    | div =>
      obtain ⟨q, -, h⟩ := bind_eq_ok_iff.mp h
      split at h
      · obtain ⟨v, -, hm⟩ := bind_eq_ok_iff.mp h
        obtain rfl := Except.ok.inj hm
        trivial
      · cases h
  · obtain ⟨p, hp, h⟩ := bind_eq_ok_iff.mp h
    obtain ⟨q, hq, h⟩ := bind_eq_ok_iff.mp h
    exact TermSum.isTerm_scale (hl p hp) (hr q hq) h
  · next hsign =>
    rw [distributes_sum s _ _ _ hsign] at hd
    cases hd
  · obtain ⟨p, hp, h⟩ := bind_eq_ok_iff.mp h
    obtain ⟨q, hq, h⟩ := bind_eq_ok_iff.mp h
    exact TermSum.isTerm_scale (hl p hp) (hr q hq) h

theorem isTerm_reduce_power (hl : ∀ p, l.reduce = .ok p → p.IsTerm)
    (h : (binary .power l r).reduce = .ok m) : m.IsTerm := by
  rcases power_of_reduce h with rfl | ⟨p, n, hp, h⟩
  · trivial
  · exact TermSum.isTerm_power_of_isTerm (hl p hp) h

/-- What is gathered on the way is a single term in the end. -/
theorem isTerm_of_gathered (hg : e.Gathered) (h : e.reduce = .ok p) : p.IsTerm := by
  induction e generalizing p with
  | term t =>
    rw [reduce] at h
    obtain rfl := Except.ok.inj h
    trivial
  | unary op e ih =>
    cases op with
    | unknown symbol =>
      rw [reduce] at h
      cases h
    | sign s =>
      cases s with
      | plus =>
        rw [reduce] at h
        exact ih hg h
      | minus =>
        rw [reduce] at h
        obtain ⟨q, hq, hp⟩ := bind_eq_ok_iff.mp h
        obtain rfl := Except.ok.inj hp
        exact (TermSum.isTerm_negated q).mpr (ih hg hq)
  | binary op l r ihl ihr =>
    cases op with
    | unknown symbol =>
      rw [reduce] at h
      cases h
    | power => exact isTerm_reduce_power (fun p hp => ihl hg hp) h
    | scaling s =>
      obtain ⟨hd, hl, hr⟩ := hg
      have hdistribute : ∀ m, distribute s l r = .ok m → m.IsTerm := fun m hm =>
        isTerm_distribute hd (fun p hp => ihl hl hp) (fun p hp => ihr hr hp) hm
      cases s with
      | mul =>
        rw [reduce] at h
        exact hdistribute p h
      | div =>
        rw [reduce] at h
        rcases Attempt.orIfNoRule_eq_ok h with h | ⟨-, h⟩
        · exact hdistribute p h
        · obtain ⟨q, -, h⟩ := bind_eq_ok_iff.mp h
          obtain ⟨q', -, h⟩ := bind_eq_ok_iff.mp h
          split at h
          · obtain rfl := Except.ok.inj h
            trivial
          · cases h
    | additive s =>
      obtain ⟨hl, hr, hlike⟩ := hg
      rw [reduce] at h
      obtain ⟨q, hq, h⟩ := bind_eq_ok_iff.mp h
      obtain ⟨q', hq', hp⟩ := bind_eq_ok_iff.mp h
      obtain rfl := Except.ok.inj hp
      obtain ⟨t, rfl⟩ := TermSum.isTerm_iff.mp (ihl hl hq)
      obtain ⟨u, rfl⟩ := TermSum.isTerm_iff.mp (ihr hr hq')
      obtain ⟨v, hv⟩ := Option.isSome_iff_exists.mp (hlike t u hq hq')
      rw [TermSum.unite, hv]
      trivial

/-- Zero to the power zero is refused exactly where the zero is a single term, as it is in any base
that is gathered on the way, and among constants without quotients in just those that fold. -/
theorem reduce_zero_to_zero (hb : b.reduce = .ok p) (hzero : p.laurent = 0)
    (he : e.reduce = .ok (.number 0)) :
    (p.IsTerm → (binary .power b e).reduce = .error (.zeroToZero (binary .power b e))) ∧
    (¬p.IsTerm → (binary .power b e).reduce = .ok (.number 1)) ∧
    (b.Gathered → p.IsTerm) ∧
    (∀ n, b.AmountsTo n → (p.IsTerm ↔ b.folds = true)) := by
  have hpower := reduce_zeroth_power b he
  simp only [hb] at hpower
  refine ⟨fun hterm => ?_, fun hterm => ?_, fun hg => isTerm_of_gathered hg hb,
    fun n hn => hn.isTerm_iff_folds hb⟩
  · rw [hpower, if_pos ((TermSum.isZeroTerm_iff hzero).mpr hterm)]
  · rw [hpower, if_neg (mt (TermSum.isZeroTerm_iff hzero).mp hterm)]

set_option maxRecDepth 20000 in
theorem reduce_zero_to_zero_like_terms :
    (binary .power
      (additive .minus (scaling .mul (.term (.named "x")) (.term (.named "x")))
        (binary .power (.term (.named "x")) (number 2)))
      (additive .minus (number 1) (number 1))).reduce =
        .error (.zeroToZero (binary .power
          (additive .minus (scaling .mul (.term (.named "x")) (.term (.named "x")))
            (binary .power (.term (.named "x")) (number 2)))
          (additive .minus (number 1) (number 1)))) ∧
    (binary .power (scaling .mul (number 2) (additive .minus (number 3) (number 3)))
      (number 0)).reduce = .ok (.number 1) := by
  have hsquare : (scaling .mul (.term (.named "x")) (.term (.named "x"))).reduce =
      .ok (.term (.monomial "x" 1 2)) := by cbv
  have hpower : (binary .power (.term (.named "x")) (number 2)).reduce =
      .ok (.term (.monomial "x" 1 2)) := by cbv
  have hlike : (additive .minus (scaling .mul (.term (.named "x")) (.term (.named "x")))
      (binary .power (.term (.named "x")) (number 2))).reduce =
        .ok (.term (.monomial "x" 0 2)) := by cbv
  have hgathered : (additive .minus (scaling .mul (.term (.named "x")) (.term (.named "x")))
      (binary .power (.term (.named "x")) (number 2))).Gathered := by
    refine ⟨⟨rfl, trivial, trivial⟩, trivial, fun t u ht hu => ?_⟩
    rw [hsquare] at ht
    rw [hpower] at hu
    cases ht
    cases hu
    rfl
  have hexponent : (additive .minus (number 1) (number 1)).reduce = .ok (.number 0) := by cbv
  have hconstant : (scaling .mul (number 2) (additive .minus (number 3) (number 3))).AmountsTo 0 :=
    .mul (.number 2) (.additive .minus (.number 3) (.number 3))
  have hleft : (scaling .mul (number 2) (additive .minus (number 3) (number 3))).reduce =
      .ok (.join .minus (.number 6) (.number 6)) := by cbv
  have hzero : (number 0).reduce = .ok (.number 0) := by cbv
  have hlaurent : (TermSum.term (.monomial "x" 0 2)).laurent = 0 :=
    Term.laurent_eq_zero_iff.mpr rfl
  have hlaurent' : (TermSum.join .minus (.number 6) (.number 6)).laurent = 0 :=
    sub_self (TermSum.number 6).laurent
  obtain ⟨hrefused, -, hterm, -⟩ := reduce_zero_to_zero hlike hlaurent hexponent
  obtain ⟨-, hone, -, hfolds⟩ := reduce_zero_to_zero hleft hlaurent' hzero
  exact ⟨hrefused (hterm hgathered), hone (mt (hfolds 0 hconstant).mp Bool.false_ne_true)⟩

set_option maxRecDepth 20000 in
/-- Terms that cancel only when they are collected are no zero to be refused. -/
theorem reduce_uncollected_zero_to_zero :
    (∃ p, (additive .minus (additive .minus (additive .plus (.term (.named "x")) (number 1))
        (.term (.named "x"))) (number 1)).reduce = .ok p ∧ p.laurent = 0 ∧
      (number 0).reduce = .ok (.number 0) ∧
      (binary .power (additive .minus (additive .minus
        (additive .plus (.term (.named "x")) (number 1)) (.term (.named "x"))) (number 1))
          (number 0)).reduce = .ok (.number 1)) ∧
    (evaluate 600 false "x + 1 - x - 1").outcome = .ok "0" ∧
    (evaluate 600 false "(x + 1 - x - 1)^0").outcome = .ok "1" := by
  refine ⟨⟨.join .minus (.join .minus (.join .plus (.term (.named "x")) (.number 1))
    (.term (.named "x"))) (.number 1), ?_, ?_, ?_, ?_⟩, ?_, ?_⟩
  · cbv
  · simp [TermSum.laurent, TermSum.value, Sign.combine, Term.value]
  all_goals cbv

end Expr

end LaurentCalc
