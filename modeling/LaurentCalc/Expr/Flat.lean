import LaurentCalc.Canonical

/-!
# Flat expressions

An expression is flat if it consists of terms joined by additions and
subtractions only, that is, if it is the tree of a sum of terms.
-/

namespace LaurentCalc.Expr

/-- The expression read as a sum; otherwise its first subtree, from the left, that is none. -/
def toSum : Expr → Except Expr TermSum
  | .term t => .ok (.term t)
  | .binary (.additive s) l r => do
    let p ← l.toSum
    let q ← r.toSum
    return .join s p q
  | e => .error e

def isFlat : Expr → Bool
  | .term _ => true
  | .binary (.additive _) l r => l.isFlat && r.isFlat
  | _ => false

/-- Collects the terms of a flat expression and leaves any other as it is. -/
def collect (e : Expr) : Expr :=
  match e.toSum with
  | .ok p => p.collect.toExpr
  | .error _ => e

@[simp] theorem toSum_toExpr (p : TermSum) : p.toExpr.toSum = .ok p := by
  induction p with
  | term t => rfl
  | join s l r ihl ihr =>
    simp [TermSum.toExpr, toSum, ihl, ihr, bind, Except.bind, pure, Except.pure]

@[simp] theorem isFlat_toExpr (p : TermSum) : p.toExpr.isFlat = true := by
  induction p with
  | term t => rfl
  | join s l r ihl ihr => rw [TermSum.toExpr, isFlat, ihl, ihr, Bool.and_self]

end LaurentCalc.Expr
