import LaurentCalc.Text.Quoted

/-!
# Tokens

The words of an expression text: integers, names, operators, parentheses, and
the end of the text.
-/

namespace LaurentCalc

inductive TokenKind where
  | integer
  | identifier
  | plus
  | minus
  | star
  | slash
  | caret
  | leftParen
  | rightParen
  | endOfText
  deriving DecidableEq

/-- What a token carries besides its kind. -/
inductive TokenValue where
  | nothing
  | number (n : Int)
  | text (s : String)
  deriving DecidableEq

/-- A token: an integer carries its value, a name and an operator their spelling. -/
structure Token where
  kind : TokenKind
  value : TokenValue
  deriving DecidableEq

namespace TokenKind

def label : TokenKind → String
  | .integer => "INTEGER"
  | .identifier => "IDENTIFIER"
  | .plus => "PLUS"
  | .minus => "MINUS"
  | .star => "MUL"
  | .slash => "DIV"
  | .caret => "POW"
  | .leftParen => "LPAREN"
  | .rightParen => "RPAREN"
  | .endOfText => "EOF"

def ofSymbol? (c : Char) : Option TokenKind :=
  if c = '+' then some .plus
  else if c = '-' then some .minus
  else if c = '*' then some .star
  else if c = '/' then some .slash
  else if c = '^' then some .caret
  else if c = '(' then some .leftParen
  else if c = ')' then some .rightParen
  else none

/-- Whether a token of the first kind may not be followed by one of the second: between operands,
and between an operand and a parenthesis, there has to be an operator. -/
def clashes : TokenKind → TokenKind → Bool
  | .integer, .integer => true
  | .identifier, .identifier => true
  | .integer, .identifier => true
  | .identifier, .integer => true
  | .integer, .leftParen => true
  | .identifier, .leftParen => true
  | .rightParen, .integer => true
  | .rightParen, .identifier => true
  | _, _ => false

end TokenKind

def TokenValue.dump : TokenValue → String
  | .nothing => "None"
  | .number n => n.repr
  | .text s => Text.quoted s

namespace Token

def integer (n : Nat) : Token := ⟨.integer, .number n⟩

def identifier (name : String) : Token := ⟨.identifier, .text name⟩

def symbol (kind : TokenKind) (c : Char) : Token := ⟨kind, .text (String.singleton c)⟩

def endOfText : Token := ⟨.endOfText, .nothing⟩

def dump (token : Token) : String :=
  "Token(" ++ token.kind.label ++ ", " ++ token.value.dump ++ ")"

end Token

end LaurentCalc
