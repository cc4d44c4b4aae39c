import LaurentCalc.Reduction

/-!
# Single rules

The rules of reduction as they apply to the root of a given tree. A rule looks
at the shape of the node and not at its operator, so it can also be applied by
hand to a node that it would not be chosen for; whatever lies below the root is
reduced as usual.
-/

namespace LaurentCalc

inductive Rule where
  | unaryPlus
  | unaryMinus
  | additive
  | power
  | multiply
  | divide
  | sameOperands
  deriving DecidableEq

namespace Rule

open LaurentCalc.Expr (reduce)

def reduceTree (e : Expr) : Attempt Expr := return (← reduce e).toExpr

/-- A sum or difference at a node with any operator: like terms are subtracted unless the operator
is the plus sign, and unlike ones stay under the operator. -/
def applyAdditive (op : BinaryOp) (l r : Expr) : Attempt Expr := do
  let p ← reduce l
  let q ← reduce r
  let s := if op = .additive .plus then .plus else .minus
  match p.unite s q with
  | .term t => return .term t
  | .join .. => return .binary op p.toExpr q.toExpr

/-- A power at a node with any operator, which the failure `0^0` names. -/
def applyPower (op : BinaryOp) (l r : Expr) : Attempt Expr :=
  match reduceTree (.binary .power l r) with
  | .error (.zeroToZero node) =>
    .error (.zeroToZero (if node = .binary .power l r then .binary op l r else node))
  | outcome => outcome

/-- Two operands reduced and combined again at a node with the given operator. -/
def recombine (op : BinaryOp) (l r : Expr) : Attempt Expr := do
  let p ← reduce l
  let q ← reduce r
  reduceTree (.binary op p.toExpr q.toExpr)

/-- The distribution shared by products and quotients, at a node with any operator; nothing if both
operands are terms and the rule for terms has to follow. -/
def distribute? (op : BinaryOp) (l r : Expr) : Option (Attempt Expr) :=
  match l, r with
  | .term _, .term _ => none
  | .unary .., _ => some (recombine op l r)
  | _, .unary .. => some (recombine op l r)
  | .binary (.additive s) x y, _ => some do
    let p ← reduceTree (.binary op x r)
    let q ← reduceTree (.binary op y r)
    return .additive s p q
  | .binary .., _ => some (recombine op l r)
  | .term t, .binary (.additive s) x y =>
    some (if op = .scaling .mul then do
      let p ← reduceTree (.binary op x (.term t))
      let q ← reduceTree (.binary op y (.term t))
      return .additive s p q
    else do
      match ← reduce r with
      | .term u => reduceTree (.scaling .div (.term t) (.term u))
      | .join .. => .error .noRule)
  | .term _, .binary .. =>
    some (recombine (if op = .scaling .mul then op else .scaling .div) l r)

def applySameOperands (l r : Expr) : Attempt Expr := do
  let p ← reduce l
  let q ← reduce r
  if p = q then return .number 1 else .error .noRule

def applyMultiply (op : BinaryOp) (l r : Expr) : Attempt Expr :=
  match distribute? op l r with
  | some outcome => outcome
  | none => reduceTree (.scaling .mul l r)

def applyDivide (op : BinaryOp) (l r : Expr) : Attempt Expr :=
  match distribute? op l r with
  | some outcome => outcome.orIfNoRule (applySameOperands l r)
  | none => reduceTree (.scaling .div l r)

/-- A rule applied to the root of a tree; no rule if the root has not the right number of operands.
-/
def apply : Rule → Expr → Attempt Expr
  | .unaryPlus, .unary _ e => reduceTree e
  | .unaryMinus, .unary _ e => reduceTree (.unary (.sign .minus) e)
  | .additive, .binary op l r => applyAdditive op l r
  | .power, .binary op l r => applyPower op l r
  | .multiply, .binary op l r => applyMultiply op l r
  | .divide, .binary op l r => applyDivide op l r
  | .sameOperands, .binary _ l r => applySameOperands l r
  | _, _ => .error .noRule

end Rule

end LaurentCalc
