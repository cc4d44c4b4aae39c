import LaurentCalc.Term

/-!
# Expressions

Expression trees with terms as leaves. Besides the two signs and the five
binary operators a tree may hold operators that no rule knows; they are kept by
their symbol.
-/

namespace LaurentCalc

/-- The two signs, which also join the summands of a sum. -/
inductive Sign where
  | plus
  | minus
  deriving DecidableEq

/-- The operators that scale a sum summand by summand. -/
inductive Scaling where
  | mul
  | div
  deriving DecidableEq

inductive UnaryOp where
  | sign (s : Sign)
  | unknown (symbol : String)
  deriving DecidableEq

inductive BinaryOp where
  | additive (s : Sign)
  | scaling (s : Scaling)
  | power
  | unknown (symbol : String)
  deriving DecidableEq

inductive Expr where
  | term (t : Term)
  | unary (op : UnaryOp) (operand : Expr)
  | binary (op : BinaryOp) (left right : Expr)
  deriving DecidableEq

def Sign.symbol : Sign → String
  | .plus => "+"
  | .minus => "-"

/-- Addition or subtraction, as the sign says. -/
def Sign.apply : Sign → Int → Int → Int
  | .plus, a, b => a + b
  | .minus, a, b => a - b

def Scaling.symbol : Scaling → String
  | .mul => "*"
  | .div => "/"

def UnaryOp.symbol : UnaryOp → String
  | .sign s => s.symbol
  | .unknown symbol => symbol

def UnaryOp.ofSymbol (symbol : String) : UnaryOp :=
  if symbol = "+" then .sign .plus
  else if symbol = "-" then .sign .minus
  else .unknown symbol

def BinaryOp.symbol : BinaryOp → String
  | .additive s => s.symbol
  | .scaling s => s.symbol
  | .power => "^"
  | .unknown symbol => symbol

def BinaryOp.ofSymbol (symbol : String) : BinaryOp :=
  if symbol = "+" then .additive .plus
  else if symbol = "-" then .additive .minus
  else if symbol = "*" then .scaling .mul
  else if symbol = "/" then .scaling .div
  else if symbol = "^" then .power
  else .unknown symbol

@[simp] theorem UnaryOp.symbol_ofSymbol (symbol : String) :
    (UnaryOp.ofSymbol symbol).symbol = symbol := by
  unfold UnaryOp.ofSymbol
  repeat' split
  all_goals simp_all [UnaryOp.symbol, Sign.symbol]

@[simp] theorem BinaryOp.symbol_ofSymbol (symbol : String) :
    (BinaryOp.ofSymbol symbol).symbol = symbol := by
  unfold BinaryOp.ofSymbol
  repeat' split
  all_goals simp_all [BinaryOp.symbol, Sign.symbol, Scaling.symbol]

namespace Expr

abbrev number (v : Int) : Expr := .term (.number v)

/-- `left + right` or `left - right`. -/
abbrev additive (s : Sign) (left right : Expr) : Expr := .binary (.additive s) left right

/-- `left * right` or `left / right`. -/
abbrev scaling (s : Scaling) (left right : Expr) : Expr := .binary (.scaling s) left right

def size : Expr → Nat
  | .term _ => 1
  | .unary _ e => e.size + 1
  | .binary _ l r => l.size + r.size + 1

/-- The number of nodes on the longest path from the root to a leaf. -/
def height : Expr → Nat
  | .term _ => 1
  | .unary _ e => e.height + 1
  | .binary _ l r => max l.height r.height + 1

theorem height_le_size (e : Expr) : e.height ≤ e.size := by
  induction e with
  | term => simp [height, size]
  | unary op e ih => simpa [height, size] using ih
  | binary op l r ihl ihr => simp only [height, size]; omega

def isTerm : Expr → Bool
  | .term _ => true
  | _ => false

end Expr

end LaurentCalc
