import LaurentCalc.Reduction

/-!
# Reach

How far down in a tree reduction gets. It takes operands from left to right and ends at the
first obstacle, so that what stands behind an obstacle is not gone into. A product or
quotient that is distributed takes the sides of its operands apart; the two operands
may then stand at different levels of the tree.
-/

namespace LaurentCalc

def Attempt.lacksRule {α : Type} : Attempt α → Bool
  | .error .noRule => true
  | _ => false

namespace Expr

/-- Whether the base of a power is reduced once its exponent has been. -/
def takesBase : Attempt TermSum → Bool
  | .ok (.term (.number n)) => 0 ≤ n
  | _ => false

mutual

/-- Whether the reduction of an expression gets further down than the given number of levels. -/
def overruns : Nat → Expr → Bool
  | 0, _ => true
  | _ + 1, .term _ => false
  | k + 1, .unary (.sign _) e => overruns k e
  | _ + 1, .unary (.unknown _) _ => false
  | k + 1, .binary (.additive _) l r => overruns k l || ((reduce l).isOk && overruns k r)
  | k + 1, .binary (.scaling s) l r => overrunsAcross s k k l r
  | k + 1, .binary .power l r => overruns k r || (takesBase (reduce r) && overruns k l)
  | _ + 1, .binary (.unknown _) _ _ => false
termination_by _ e => 3 * e.size
decreasing_by
  all_goals simp only [size]
  all_goals omega

/-- The same for the product or quotient of two expressions, with `k` levels for the one and `m` for
the other. A quotient without a rule goes into both operands again, to compare them. -/
def overrunsAcross (s : Scaling) (k m : Nat) (l r : Expr) : Bool :=
  match s with
  | .mul => overrunsSides .mul k m l r
  | .div =>
    overrunsSides .div k m l r ||
      ((distribute .div l r).lacksRule &&
        (overruns k l || ((reduce l).isOk && overruns m r)))
termination_by 3 * (l.size + r.size) + 2
decreasing_by
  all_goals omega

def overrunsSides (s : Scaling) (k m : Nat) : Expr → Expr → Bool
  | .term _, .term _ => k = 0 || m = 0
  | .term t, .binary (.additive a) x y =>
    match s with
    | .mul =>
      m = 0 || overrunsAcross .mul (m - 1) k x (.term t) ||
        ((reduce (.scaling .mul x (.term t))).isOk && overrunsAcross .mul (m - 1) k y (.term t))
    | .div => k = 0 || overruns m (.binary (.additive a) x y)
  | .binary (.additive a) x y, .unary op e =>
    overruns k (.binary (.additive a) x y) ||
      ((reduce (.additive a x y)).isOk && overruns m (.unary op e))
  | .binary (.additive _) x y, r =>
    k = 0 || overrunsAcross s (k - 1) m x r ||
      ((reduce (.scaling s x r)).isOk && overrunsAcross s (k - 1) m y r)
  | l, r => overruns k l || ((reduce l).isOk && overruns m r)
termination_by l r => 3 * (l.size + r.size) + 1
decreasing_by
  all_goals try simp only [size]
  all_goals omega

end

end Expr

end LaurentCalc
