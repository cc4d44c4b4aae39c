import LaurentCalc.Text.Blank
import LaurentCalc.Text.Digit
import LaurentCalc.Text.Letter
import LaurentCalc.Token

/-!
# Cursors

A cursor stands in a text and reads tokens from it. Reading an unknown
character fails without moving past it, so a second attempt fails in the same
way; at the end of the text the closing token can be read again and again.
-/

namespace LaurentCalc

/-- The characters still ahead, and how many have been passed. A cursor that is moved on at the end
of the text goes on counting. -/
structure Cursor where
  rest : List Char
  position : Nat
  deriving DecidableEq

/-- A character that begins no token. -/
structure UnknownCharacter where
  character : Char
  position : Nat
  deriving DecidableEq

namespace Cursor

def ofText (text : String) : Cursor := ⟨text.toList, 0⟩

def current? (c : Cursor) : Option Char := c.rest.head?

def advance (c : Cursor) : Cursor := ⟨c.rest.drop 1, c.position + 1⟩

/-- The longest run of characters that satisfy a test. -/
def run (p : Char → Bool) (c : Cursor) : List Char := c.rest.takeWhile p

/-- Behind the longest run of characters that satisfy a test. -/
def skip (p : Char → Bool) (c : Cursor) : Cursor :=
  ⟨c.rest.dropWhile p, c.position + (c.run p).length⟩

def skipBlanks (c : Cursor) : Cursor := c.skip Text.isBlank

/-- The digits ahead as a number; nothing if there are none. -/
def integer? (c : Cursor) : Option Nat :=
  match c.run Text.isDigit with
  | [] => none
  | digits => some (Text.numberOfDigits digits)

def identifier (c : Cursor) : String := String.ofList (c.run Text.isLetter)

/-- The next token, read at a cursor with no blanks ahead. -/
def tokenHere (c : Cursor) : Except UnknownCharacter Token × Cursor :=
  match c.rest with
  | [] => (.ok .endOfText, c)
  | ch :: _ =>
    if Text.isDigit ch then
      (.ok (.integer (Text.numberOfDigits (c.run Text.isDigit))), c.skip Text.isDigit)
    else if Text.isLetter ch then (.ok (.identifier c.identifier), c.skip Text.isLetter)
    else
      match TokenKind.ofSymbol? ch with
      | some kind => (.ok (.symbol kind ch), c.advance)
      | none => (.error ⟨ch, c.position⟩, c)

def next (c : Cursor) : Except UnknownCharacter Token × Cursor := c.skipBlanks.tokenHere

@[simp] theorem length_skip_le (p : Char → Bool) (c : Cursor) :
    (c.skip p).rest.length ≤ c.rest.length :=
  (List.dropWhile_suffix p).length_le

theorem length_skip_lt {p : Char → Bool} {c : Cursor} {ch : Char} {rest : List Char}
    (hc : c.rest = ch :: rest) (hp : p ch = true) : (c.skip p).rest.length < c.rest.length := by
  have hle : (rest.dropWhile p).length ≤ rest.length := (List.dropWhile_suffix p).length_le
  simp only [skip, hc, List.dropWhile_cons, hp, if_true, List.length_cons]
  omega

/-- What is read at a cursor with no blanks ahead, by the character that stands there. -/
inductive Reads (c : Cursor) : Except UnknownCharacter Token → Cursor → Prop where
  | endOfText (hrest : c.rest = []) : Reads c (.ok .endOfText) c
  | integer {ch : Char} {rest : List Char} (hrest : c.rest = ch :: rest)
      (hdigit : Text.isDigit ch = true) :
      Reads c (.ok (.integer (Text.numberOfDigits (c.run Text.isDigit)))) (c.skip Text.isDigit)
  | identifier {ch : Char} {rest : List Char} (hrest : c.rest = ch :: rest)
      (hletter : Text.isLetter ch = true) :
      Reads c (.ok (.identifier c.identifier)) (c.skip Text.isLetter)
  | symbol {ch : Char} {rest : List Char} {kind : TokenKind} (hrest : c.rest = ch :: rest)
      (hsymbol : TokenKind.ofSymbol? ch = some kind) :
      Reads c (.ok (.symbol kind ch)) c.advance
  | unknown {ch : Char} {rest : List Char} (hrest : c.rest = ch :: rest)
      (hdigit : Text.isDigit ch = false) (hletter : Text.isLetter ch = false)
      (hsymbol : TokenKind.ofSymbol? ch = none) :
      Reads c (.error ⟨ch, c.position⟩) c

theorem reads_of_tokenHere {c after : Cursor} {outcome : Except UnknownCharacter Token}
    (h : c.tokenHere = (outcome, after)) : c.Reads outcome after := by
  unfold tokenHere at h
  split at h
  · next hrest =>
    cases h
    exact .endOfText hrest
  · next ch rest hrest =>
    split at h
    · next hdigit =>
      cases h
      exact .integer hrest hdigit
    · next hdigit =>
      split at h
      · next hletter =>
        cases h
        exact .identifier hrest hletter
      · next hletter =>
        split at h
        · next hsymbol =>
          cases h
          exact .symbol hrest hsymbol
        · next hsymbol =>
          cases h
          exact .unknown hrest (Bool.eq_false_iff.mpr hdigit) (Bool.eq_false_iff.mpr hletter)
            hsymbol

theorem length_tokenHere_lt {c after : Cursor} {token : Token}
    (h : c.tokenHere = (.ok token, after)) (hkind : token.kind ≠ .endOfText) :
    after.rest.length < c.rest.length := by
  cases reads_of_tokenHere h with
  | endOfText hrest => exact absurd rfl hkind
  | integer hrest hdigit => exact length_skip_lt hrest hdigit
  | identifier hrest hletter => exact length_skip_lt hrest hletter
  | symbol hrest hsymbol => simp [advance, hrest]

theorem length_next_lt {c after : Cursor} {token : Token}
    (h : c.next = (.ok token, after)) (hkind : token.kind ≠ .endOfText) :
    after.rest.length < c.rest.length :=
  Nat.lt_of_lt_of_le (length_tokenHere_lt h hkind) (length_skip_le _ c)

end Cursor

/-- A token with the positions at which its text begins and ends. -/
structure Lexeme where
  token : Token
  start : Nat
  stop : Nat
  deriving DecidableEq

/-- The tokens of a text up to its end or up to the first unknown character. -/
structure Lexed where
  lexemes : List Lexeme
  unknown? : Option UnknownCharacter
  deriving DecidableEq

/-- All tokens ahead of a cursor, the end of the text included. -/
def Cursor.lexed (c : Cursor) : Lexed :=
  match _h : c.next with
  | (.error unknown, _) => ⟨[], some unknown⟩
  | (.ok token, after) =>
    let lexeme : Lexeme := ⟨token, c.skipBlanks.position, after.position⟩
    if _hkind : token.kind = .endOfText then ⟨[lexeme], none⟩
    else
      let more := after.lexed
      ⟨lexeme :: more.lexemes, more.unknown?⟩
termination_by c.rest.length
decreasing_by exact Cursor.length_next_lt _h _hkind

end LaurentCalc
