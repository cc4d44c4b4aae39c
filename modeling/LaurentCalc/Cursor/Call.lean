import LaurentCalc.Cursor

/-!
# Calls

What a cursor can be asked for, one thing after the other and in any order. A call that
fails says why, and the next one goes on from where it has left the cursor.
-/

namespace LaurentCalc.Cursor

inductive Call where
  | advance
  | skipBlanks
  | integer
  | identifier
  | next
  deriving DecidableEq

/-- What a call gives back, or why it fails. -/
inductive Answer where
  | nothing
  | number (n : Nat)
  | noDigits
  | name (x : String)
  | token (t : Token)
  | unknown (u : UnknownCharacter)
  deriving DecidableEq

/-- The answer to a call, and the cursor that it leaves behind. -/
def perform (c : Cursor) : Call → Answer × Cursor
  | .advance => (.nothing, c.advance)
  | .skipBlanks => (.nothing, c.skipBlanks)
  | .integer =>
    match c.integer? with
    | some n => (.number n, c.skip Text.isDigit)
    | none => (.noDigits, c)
  | .identifier => (.name c.identifier, c.skip Text.isLetter)
  | .next =>
    match c.next with
    | (.ok token, behind) => (.token token, behind)
    | (.error unknown, behind) => (.unknown unknown, behind)

/-- The cursor after calls one after the other. -/
def afterCalls (c : Cursor) (calls : List Call) : Cursor :=
  calls.foldl (fun c call => (c.perform call).2) c

end LaurentCalc.Cursor
