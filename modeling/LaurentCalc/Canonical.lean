import LaurentCalc.Collected

/-!
# Canonical text

The text of a sum: powers in the order of the collected entries, the constant
last. A coefficient or exponent of one is left out, powers with coefficient
zero disappear, and a power with exponent zero counts toward the constant.
-/

namespace LaurentCalc

/-- A power of a name; the exponent one is left out. -/
def powerText (name : String) (exponent : Int) : String :=
  if exponent = 1 then name else name ++ "^" ++ exponent.repr

/-- A power with its coefficient, the sign apart; the factor one is left out. -/
def unsignedText (name : String) (exponent coefficient : Int) : String :=
  if coefficient.natAbs = 1 then powerText name exponent
  else coefficient.natAbs.repr ++ "*" ++ powerText name exponent

/-- A summand of the canonical text: a leading one carries only a minus sign, every other one a
sign and a space. -/
def summandText (leading negative : Bool) (body : String) : String :=
  match leading, negative with
  | true, false => body
  | true, true => "-" ++ body
  | false, false => "+ " ++ body
  | false, true => "- " ++ body

def termText (name : String) (exponent coefficient : Int) (leading : Bool) : String :=
  summandText leading (coefficient < 0) (unsignedText name exponent coefficient)

namespace Entry

def text (leading : Bool) (entry : Entry) : String :=
  termText entry.name entry.exponent entry.coefficient leading

end Entry

namespace Collected

/-- The entries that appear in the canonical text. -/
def shown (c : Collected) : List Entry :=
  c.entries.filter fun entry => entry.exponent ≠ 0 ∧ entry.coefficient ≠ 0

/-- The constant together with the coefficients of exponent zero. -/
def total (c : Collected) : Int :=
  c.constant + ((c.entries.filter (·.exponent = 0)).map (·.coefficient)).foldr (· + ·) 0

def constantText (constant : Int) : List String :=
  if constant = 0 then [] else [summandText false (constant < 0) constant.natAbs.repr]

def text (c : Collected) : String :=
  match c.shown with
  | [] => c.total.repr
  | first :: rest =>
    " ".intercalate (first.text true :: rest.map (Entry.text false) ++ constantText c.total)

end Collected

def TermSum.render (p : TermSum) : String := p.collected.text

end LaurentCalc
