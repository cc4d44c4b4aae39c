import LaurentCalc.TermSum.Power

/-!
# Reduction

Reduction turns an expression into a sum of terms. Signs move onto the terms,
products and quotients are distributed over sums before these are reduced, and
powers are multiplied out. Operands are taken from left to right and the first
obstacle ends the reduction; only a base under the exponent zero and a quotient
of equal operands may do without a rule of their own.
-/

namespace LaurentCalc

namespace TermSum

def isZeroTerm : TermSum → Bool
  | .term t => t.weight = 0
  | .join .. => false

end TermSum

namespace Expr

mutual

def reduce : Expr → Attempt TermSum
  | .term t => .ok (.term t)
  | .unary (.sign .plus) e => reduce e
  | .unary (.sign .minus) e => return (← reduce e).negated
  | .unary (.unknown _) _ => .error .noRule
  | .binary (.additive s) l r => do
    let p ← reduce l
    let q ← reduce r
    return p.unite s q
  | .binary (.scaling .mul) l r => distribute .mul l r
  | .binary (.scaling .div) l r =>
    Attempt.orIfNoRule (distribute .div l r)
      (do
        let p ← reduce l
        let q ← reduce r
        if p = q then return .number 1 else .error .noRule)
  | .binary .power l r => do
    match ← reduce r with
    | .term (.number n) =>
      if n < 0 then .error .noRule
      else if n = 0 then
        match reduce l with
        | .ok base =>
          if base.isZeroTerm then .error (.zeroToZero (.binary .power l r)) else return .number 1
        | .error .noRule => return .number 1
        | .error obstacle => .error obstacle
      else (← reduce l).power n.toNat
    | _ => .error .noRule
  | .binary (.unknown _) _ _ => .error .noRule
termination_by e => 2 * e.size
decreasing_by
  all_goals simp only [size]
  all_goals omega

/-- The product or quotient of two expressions. A sum on the left is scaled side by side; a sum on
the right is multiplied side by side, or has to reduce to one term before it divides. -/
def distribute (s : Scaling) : Expr → Expr → Attempt TermSum
  | .term t, .term u => return .term (← t.scale s u)
  | .term t, .binary (.additive a) x y =>
    match s with
    | .mul => do
      let p ← reduce (.scaling .mul x (.term t))
      let q ← reduce (.scaling .mul y (.term t))
      return .join a p q
    | .div => do
      match ← reduce (.additive a x y) with
      | .term u => return .term (← t.div u)
      | .join .. => .error .noRule
  | .binary (.additive a) x y, .unary op e => do
    let p ← reduce (.additive a x y)
    let q ← reduce (.unary op e)
    p.scale s q
  | .binary (.additive a) x y, r => do
    let p ← reduce (.scaling s x r)
    let q ← reduce (.scaling s y r)
    return .join a p q
  | l, r => do
    let p ← reduce l
    let q ← reduce r
    p.scale s q
termination_by l r => 2 * (l.size + r.size) + 1
decreasing_by
  all_goals try simp only [size]
  all_goals omega

end

/-- Induction along reduction. What is shown of an expression comes from what is shown of the
operands that reduction turns to; `distributed` is what is shown of a product or quotient that is
being distributed. -/
theorem reduceInduction (distributed : Scaling → Expr → Expr → Prop) {motive : Expr → Prop}
    (term : ∀ t, motive (.term t))
    (plus : ∀ e, motive e → motive (.unary (.sign .plus) e))
    (minus : ∀ e, motive e → motive (.unary (.sign .minus) e))
    (unknownSign : ∀ symbol e, motive (.unary (.unknown symbol) e))
    (additive : ∀ s l r, motive l → motive r → motive (.additive s l r))
    (mul : ∀ l r, distributed .mul l r → motive (.scaling .mul l r))
    (div : ∀ l r, distributed .div l r → motive l → motive r → motive (.scaling .div l r))
    (power : ∀ l r, motive r → motive l → motive (.binary .power l r))
    (unknownOperator : ∀ symbol l r, motive (.binary (.unknown symbol) l r))
    (terms : ∀ s t u, distributed s (.term t) (.term u))
    (termMulSum : ∀ t a x y, motive (.scaling .mul x (.term t)) →
      motive (.scaling .mul y (.term t)) → distributed .mul (.term t) (.additive a x y))
    (termDivSum : ∀ t a x y, motive (.additive a x y) →
      distributed .div (.term t) (.additive a x y))
    (sumSigned : ∀ s a x y op e, motive (.additive a x y) → motive (.unary op e) →
      distributed s (.additive a x y) (.unary op e))
    (sum : ∀ s a x y r, (∀ op e, r = .unary op e → False) → motive (.scaling s x r) →
      motive (.scaling s y r) → distributed s (.additive a x y) r)
    (operands : ∀ s l r, (∀ t u, l = .term t → r = .term u → False) →
      (∀ t a x y, l = .term t → r = .additive a x y → False) →
      (∀ a x y op e, l = .additive a x y → r = .unary op e → False) →
      (∀ a x y, l = .additive a x y → False) → motive l → motive r → distributed s l r)
    (e : Expr) : motive e :=
  reduce.induct motive distributed term plus minus unknownSign additive mul div power
    unknownOperator terms termMulSum termDivSum sumSigned sum operands e

end Expr

end LaurentCalc
