import LaurentCalc.Cursor
import LaurentCalc.Obstacle

/-!
# Faults

Why the calculator gives no result for a text, each fault with the message that
describes it.
-/

namespace LaurentCalc

/-- How the tokens of a text miss the grammar. -/
inductive SyntaxFault where
  | expected (wanted found : TokenKind)
  | unexpected (found : TokenKind)
  | missingOperator (left right : TokenValue)
  | unspecified
  | other (detail : String)
  deriving DecidableEq

def SyntaxFault.message : SyntaxFault → String
  | .expected wanted found => "Expected " ++ wanted.label ++ ", got " ++ found.label
  | .unexpected found => "Unexpected token: " ++ found.label
  | .missingOperator left right =>
    "Missing operator between " ++ left.dump ++ " and " ++ right.dump
  | .unspecified => "Invalid Syntax"
  | .other detail => detail

/-- What keeps a text from having a result. -/
inductive Fault where
  | unknownCharacter (unknown : UnknownCharacter)
  | malformed (fault : SyntaxFault)
  | nestedTooDeeply
  | divisionByZero (numerator : Int)
  | zeroToZero (power : Expr)
  | irreducible (e : Expr)
  | notFlat (e : Expr)
  | outputFailed (reason : String)
  deriving DecidableEq

namespace Fault

/-- The fault that an obstacle to reducing an expression amounts to. -/
def ofObstacle (e : Expr) : Obstacle → Fault
  | .noRule => .irreducible e
  | .divisionByZero numerator => .divisionByZero numerator
  | .zeroToZero power => .zeroToZero power

/-- The tree that the message of a fault shows. -/
def shown? : Fault → Option Expr
  | .zeroToZero power => some power
  | .irreducible e => some e
  | .notFlat e => some e
  | _ => none

def message : Fault → String
  | .unknownCharacter ⟨c, position⟩ =>
    "Invalid Character: " ++ Text.quoted (String.singleton c) ++ " at position " ++ position.repr
  | .malformed fault => fault.message
  | .nestedTooDeeply => "Expression nested too deeply."
  | .divisionByZero numerator => "Division by zero: " ++ numerator.repr ++ " / 0"
  | .zeroToZero power => "0^0 in " ++ power.dump
  | .irreducible e => "No rewrite rule for " ++ e.dump
  | .notFlat e => e.dump
  | .outputFailed reason => Text.trim reason

end Fault

end LaurentCalc
