import LaurentCalc.Expr
import LaurentCalc.Text.Quoted

/-!
# Tree dumps

The text in which traces and messages show a tree. Operators are quoted text;
a name stands between single quotes as it is.
-/

namespace LaurentCalc

def Term.dump : Term → String
  | .number v => "Number(" ++ v.repr ++ ")"
  | .monomial x c e =>
    "Variable('" ++ x ++ "', coefficient=" ++ c.repr ++ ", exponent=" ++ e.repr ++ ")"

def Expr.dump : Expr → String
  | .term t => t.dump
  | .unary op e => "UnaryOp(" ++ Text.quoted op.symbol ++ ", " ++ e.dump ++ ")"
  | .binary op l r =>
    "BinOp(" ++ Text.quoted op.symbol ++ ", left=" ++ l.dump ++ ", right=" ++ r.dump ++ ")"

end LaurentCalc
