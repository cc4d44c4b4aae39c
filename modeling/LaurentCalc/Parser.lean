import LaurentCalc.Fault
import LaurentCalc.Phrase

/-!
# Parsing

A parser holds the current token and the tokens ahead. Phrases are read token by
token with a stack of frames; the number of frames is limited. A token is
passed only if the one behind it may follow it. When reading fails, the parser
stays at the token that was reached.
-/

namespace LaurentCalc

/-- The state of parsing: the current token, the position behind the text read so far, and the
tokens ahead up to the end of the text or an unknown character. -/
structure Parser where
  current : Token
  position : Nat
  pending : List Lexeme
  unknown? : Option UnknownCharacter
  deriving DecidableEq

namespace Parser

def ofText (text : String) : Except Fault Parser :=
  let lexed := (Cursor.ofText text).lexed
  match lexed.lexemes, lexed.unknown? with
  | first :: pending, unknown? => .ok ⟨first.token, first.stop, pending, unknown?⟩
  | [], some unknown => .error (.unknownCharacter unknown)
  | [], none => .ok ⟨.endOfText, 0, [], none⟩

/-- Whether the kind of the current token may be followed by another token; if so, that token
becomes the current one even where the two may not stand side by side. -/
def pass (p : Parser) : Except Fault Unit × Parser :=
  match p.pending with
  | next :: pending =>
    let moved : Parser := ⟨next.token, next.stop, pending, p.unknown?⟩
    if p.current.kind.clashes next.token.kind then
      (.error (.malformed (.missingOperator p.current.value next.token.value)), moved)
    else (.ok (), moved)
  | [] =>
    match p.unknown? with
    | some unknown => (.error (.unknownCharacter unknown), { p with position := unknown.position })
    | none => (.ok (), p)

/-- Passes the current token, which has to be of the given kind. -/
def consume (kind : TokenKind) (p : Parser) : Except Fault Token × Parser :=
  if p.current.kind = kind then
    let (outcome, moved) := p.pass
    (outcome.map fun _ => p.current, moved)
  else (.error (.malformed (.expected kind p.current.kind)), p)

/-- Reads on to the end of a phrase of the given level, with the frames begun and the operand just
read, if any. -/
def readFrom (goal : Level) (limit : Nat) (unknown? : Option UnknownCharacter)
    (frames : List Frame) (operand? : Option Expr) (current : Token) (position : Nat)
    (pending : List Lexeme) : Except Fault Expr × Parser :=
  let here : Parser := ⟨current, position, pending, unknown?⟩
  match act goal limit frames operand? current with
  | .finish e => (.ok e, here)
  | .reject => (.error (.malformed (.unexpected current.kind)), here)
  | .unclosed => (.error (.malformed (.expected .rightParen current.kind)), here)
  | .tooDeep => (.error .nestedTooDeeply, here)
  | .shift frames operand? =>
    match here.pass, pending with
    | (.error fault, moved), _ => (.error fault, moved)
    | (.ok (), _), next :: pending =>
      readFrom goal limit unknown? frames operand? next.token next.stop pending
    | (.ok (), moved), [] => (.error (.malformed (.unexpected current.kind)), moved)
termination_by structural pending

def read (goal : Level) (limit : Nat) (p : Parser) : Except Fault Expr × Parser :=
  readFrom goal limit p.unknown? [] none p.current p.position p.pending

/-- Passes all tokens ahead without looking at them. -/
def drain (p : Parser) : Except Fault Unit × Parser :=
  let last := (p.pending.getLast?.map Lexeme.token).getD p.current
  let stop := (p.pending.getLast?.map Lexeme.stop).getD p.position
  match p.unknown? with
  | some unknown => (.error (.unknownCharacter unknown), ⟨last, unknown.position, [], some unknown⟩)
  | none => (.ok (), ⟨last, stop, [], none⟩)

/-- Reads an expression and passes what is left of the text. -/
def readAll (limit : Nat) (p : Parser) : Except Fault Expr × Parser :=
  match p.read .expression limit with
  | (.error fault, moved) => (.error fault, moved)
  | (.ok e, moved) =>
    let (outcome, drained) := moved.drain
    (outcome.map fun _ => e, drained)

end Parser

/-- The expression with which a text begins; the rest of the text has to consist of tokens. At most
`limit` phrases may be open at a time. -/
def Expr.parse (limit : Nat) (text : String) : Except Fault Expr := do
  let p ← Parser.ofText text
  (p.readAll limit).1

end LaurentCalc
