import LaurentCalc.Expr
import LaurentCalc.Token

/-!
# Phrases

The four levels of phrase that make up an expression text. An atom is a number,
a name, a parenthesised expression or a signed factor; factors, terms and
expressions are built with `^`, with `*` and `/`, and with `+` and `-`.
-/

namespace LaurentCalc

/-- The levels of phrase, from the tightest to the loosest. -/
inductive Level where
  | atom
  | factor
  | term
  | expression
  deriving DecidableEq

namespace Level

def rank : Level → Nat
  | .atom => 0
  | .factor => 1
  | .term => 2
  | .expression => 3

end Level

namespace BinaryOp

def ofToken? : TokenKind → Option BinaryOp
  | .plus => some (.additive .plus)
  | .minus => some (.additive .minus)
  | .star => some (.scaling .mul)
  | .slash => some (.scaling .div)
  | .caret => some .power
  | _ => none

def level : BinaryOp → Level
  | .power => .factor
  | .scaling _ => .term
  | .additive _ => .expression
  | .unknown _ => .expression

/-- The level of the left operand: powers group to the right, the other operators to the left. -/
def leftLevel : BinaryOp → Level
  | .power => .atom
  | op => op.level

end BinaryOp

/-- A phrase that has begun and waits for an operand: a sign, an operator with its left operand, or
an open parenthesis. -/
inductive Frame where
  | sign (s : Sign)
  | operator (op : BinaryOp) (left : Expr)
  | group
  deriving DecidableEq

namespace Frame

/-- Whether the frame is complete with an operand of its own before a phrase of the given level
ends; an open parenthesis never is. -/
def endsWithin (level : Level) : Frame → Bool
  | .sign _ => Level.factor.rank ≤ level.rank
  | .operator op _ => op.level.rank ≤ level.rank
  | .group => false

/-- The phrase that a frame and its operand make up. -/
def complete (operand : Expr) : Frame → Expr
  | .sign s => .unary (.sign s) operand
  | .operator op left => .binary op left operand
  | .group => operand

end Frame

/-- Completes the innermost frames that end within a phrase of the given level. -/
def settle (level : Level) : List Frame → Expr → List Frame × Expr
  | [], e => ([], e)
  | frame :: frames, e =>
    if frame.endsWithin level then settle level frames (frame.complete e) else (frame :: frames, e)

/-- What the next token does to the phrases begun so far. -/
inductive Action where
  /-- The token belongs to the phrase: the frames and the operand behind it. -/
  | shift (frames : List Frame) (operand? : Option Expr)
  /-- The phrase ended before the token. -/
  | finish (e : Expr)
  /-- No phrase can go on with the token. -/
  | reject
  /-- An open parenthesis has to be closed first. -/
  | unclosed
  /-- One frame more than allowed. -/
  | tooDeep
  deriving DecidableEq

/-- One more frame, unless there are as many as allowed. -/
def Action.opening (limit : Nat) (frame : Frame) (frames : List Frame) : Action :=
  if frames.length < limit then .shift (frame :: frames) none else .tooDeep

/-- The effect of a token where an operand has to begin. -/
def beginOperand (limit : Nat) (frames : List Frame) (token : Token) : Action :=
  match token with
  | ⟨.integer, .number n⟩ => .shift frames (some (.number n))
  | ⟨.identifier, .text name⟩ => .shift frames (some (.term (.named name)))
  | ⟨.plus, _⟩ => .opening limit (.sign .plus) frames
  | ⟨.minus, _⟩ => .opening limit (.sign .minus) frames
  | ⟨.leftParen, _⟩ => .opening limit .group frames
  | _ => .reject

/-- The effect of a token behind an operand, while a phrase of the given level is read. -/
def afterOperand (goal : Level) (limit : Nat) (frames : List Frame) (e : Expr) (token : Token) :
    Action :=
  match BinaryOp.ofToken? token.kind with
  | some op =>
    match settle op.leftLevel frames e with
    | ([], left) =>
      if op.level.rank ≤ goal.rank then .opening limit (.operator op left) [] else .finish left
    | (frames, left) => .opening limit (.operator op left) frames
  | none =>
    match settle .expression frames e with
    | ([], whole) => .finish whole
    | (_ :: frames, inner) =>
      if token.kind = .rightParen then .shift frames (some inner) else .unclosed

/-- The effect of a token, given the frames and the operand just read, if any. -/
def act (goal : Level) (limit : Nat) (frames : List Frame) (operand? : Option Expr)
    (token : Token) : Action :=
  match operand? with
  | none => beginOperand limit frames token
  | some e => afterOperand goal limit frames e token

end LaurentCalc
