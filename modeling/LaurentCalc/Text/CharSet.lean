/-!
# Sets of characters

A character set is a list of closed ranges of code points in ascending order.
Membership reads the list from the left and stops at the first range that
begins above the character.
-/

namespace LaurentCalc.Text

/-- Closed ranges of code points, in ascending order. -/
structure CharSet where
  ranges : List (Nat × Nat)

namespace CharSet

def covers : List (Nat × Nat) → Nat → Bool
  | [], _ => false
  | (low, high) :: rest, n => low ≤ n && (n ≤ high || covers rest n)

def contains (set : CharSet) (c : Char) : Bool := covers set.ranges c.toNat

end CharSet

end LaurentCalc.Text
