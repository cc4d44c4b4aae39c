import LaurentCalc.Text.Hex

/-!
# UTF-8

Bytes are read one at a time. Every fault covers the longest beginning of a
character that was there, so that reading goes on at the byte that did not
belong to it. Strict decoding stops at the first fault; lenient decoding puts
the replacement character in the place of each.
-/

namespace LaurentCalc.Text.Utf8

inductive Reason where
  | invalidStart
  | invalidContinuation
  | unexpectedEnd
  deriving DecidableEq

/-- Bytes that encode no character: the first of them, where it stands, and how many they are. -/
structure Fault where
  reason : Reason
  first : Nat
  position : Nat
  length : Nat
  deriving DecidableEq

inductive Piece where
  | character (c : Char)
  | fault (f : Fault)
  deriving DecidableEq

/-- A character that has begun: its first byte and position, the number of bytes still owed, the
bounds of the next one, and the code point so far. -/
structure Pending where
  first : Nat
  position : Nat
  owed : Nat
  low : Nat
  high : Nat
  code : Nat

/-- The effect of a byte that stands between characters. -/
def begin (position b : Nat) : List Piece × Option Pending :=
  if b < 0x80 then ([.character (Char.ofNat b)], none)
  else if b < 0xC2 then ([.fault ⟨.invalidStart, b, position, 1⟩], none)
  else if b < 0xE0 then ([], some ⟨b, position, 1, 0x80, 0xBF, b - 0xC0⟩)
  else if b < 0xF0 then
    let low := if b = 0xE0 then 0xA0 else 0x80
    let high := if b = 0xED then 0x9F else 0xBF
    ([], some ⟨b, position, 2, low, high, b - 0xE0⟩)
  else if b < 0xF5 then
    let low := if b = 0xF0 then 0x90 else 0x80
    let high := if b = 0xF4 then 0x8F else 0xBF
    ([], some ⟨b, position, 3, low, high, b - 0xF0⟩)
  else ([.fault ⟨.invalidStart, b, position, 1⟩], none)

/-- The effect of a byte inside a character that has begun. -/
def resume (p : Pending) (position b : Nat) : List Piece × Option Pending :=
  if p.low ≤ b ∧ b ≤ p.high then
    let code := 64 * p.code + (b - 0x80)
    if p.owed = 1 then ([.character (Char.ofNat code)], none)
    else ([], some ⟨p.first, p.position, p.owed - 1, 0x80, 0xBF, code⟩)
  else
    let (pieces, pending?) := begin position b
    (.fault ⟨.invalidContinuation, p.first, p.position, position - p.position⟩ :: pieces, pending?)

/-- The pieces that bytes decode to, from a position on. -/
def piecesFrom (position : Nat) (pending? : Option Pending) : List UInt8 → List Piece
  | [] =>
    match pending? with
    | none => []
    | some p => [.fault ⟨.unexpectedEnd, p.first, p.position, position - p.position⟩]
  | b :: bytes =>
    let (pieces, next?) :=
      match pending? with
      | none => begin position b.toNat
      | some p => resume p position b.toNat
    pieces ++ piecesFrom (position + 1) next? bytes

def strict : List Piece → Except Fault (List Char)
  | [] => .ok []
  | .character c :: pieces => (strict pieces).map (c :: ·)
  | .fault f :: _ => .error f

def decode (bytes : List UInt8) : Except Fault String :=
  (strict (piecesFrom 0 none bytes)).map String.ofList

/-- The text that bytes encode, each fault replaced by U+FFFD. -/
def decodeLenient (bytes : List UInt8) : String :=
  String.ofList ((piecesFrom 0 none bytes).map fun
    | .character c => c
    | .fault _ => Char.ofNat 0xFFFD)

def encode (s : String) : List UInt8 := s.toUTF8.toList

def Reason.message : Reason → String
  | .invalidStart => "invalid start byte"
  | .invalidContinuation => "invalid continuation byte"
  | .unexpectedEnd => "unexpected end of data"

/-- The message of a fault: a single byte is shown, several are located. -/
def Fault.message (f : Fault) : String :=
  let place :=
    if f.length = 1 then
      "byte 0x" ++ String.ofList (hexText 2 f.first) ++ " in position " ++ f.position.repr
    else "bytes in position " ++ f.position.repr ++ "-" ++ (f.position + f.length - 1).repr
  "'utf-8' codec can't decode " ++ place ++ ": " ++ f.reason.message

end LaurentCalc.Text.Utf8
