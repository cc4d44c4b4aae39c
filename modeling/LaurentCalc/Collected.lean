import LaurentCalc.TermSum

/-!
# Collected terms

A sum as a constant and one coefficient for each name and exponent. The
entries are kept in the order in which results are written: names ascending by
code point, and exponents of the same name descending.
-/

namespace LaurentCalc

/-- The coefficient of one power of one name. -/
structure Entry where
  name : String
  exponent : Int
  coefficient : Int
  deriving DecidableEq

namespace Entry

/-- The key by which entries are ordered: the name, then the exponent reversed. -/
def sortKey (name : String) (exponent : Int) : String × Int := (name, -exponent)

/-- Whether a power of a name stands before an entry. -/
def Precedes (name : String) (exponent : Int) (entry : Entry) : Prop :=
  let (x, k) := sortKey name exponent
  let (y, l) := sortKey entry.name entry.exponent
  x < y ∨ x = y ∧ k < l

instance (name : String) (exponent : Int) (entry : Entry) :
    Decidable (Precedes name exponent entry) :=
  inferInstanceAs (Decidable (_ ∨ _ ∧ _))

def toTerm (entry : Entry) : Term := .monomial entry.name entry.coefficient entry.exponent

/-- Adds to the coefficient of a power, which gets an entry at its place if it has none. -/
def insert (name : String) (exponent coefficient : Int) : List Entry → List Entry
  | [] => [⟨name, exponent, coefficient⟩]
  | entry :: rest =>
    if name = entry.name ∧ exponent = entry.exponent then
      ⟨name, exponent, entry.coefficient + coefficient⟩ :: rest
    else if Precedes name exponent entry then
      ⟨name, exponent, coefficient⟩ :: entry :: rest
    else entry :: insert name exponent coefficient rest

end Entry

/-- A constant and the coefficients of powers, zeros included. -/
structure Collected where
  constant : Int
  entries : List Entry
  deriving DecidableEq

namespace Collected

def empty : Collected := ⟨0, []⟩

def add (c : Collected) : Term → Collected
  | .number v => ⟨c.constant + v, c.entries⟩
  | .monomial x k e => ⟨c.constant, Entry.insert x e k c.entries⟩

def ofTerms (ts : List Term) : Collected := ts.foldl add empty

/-- The terms that remain: entries with a coefficient other than zero, then the constant unless it
is zero beside them. -/
def remaining (c : Collected) : List Term :=
  let powers := (c.entries.filter (·.coefficient ≠ 0)).map Entry.toTerm
  if c.constant ≠ 0 ∨ powers = [] then powers ++ [.number c.constant] else powers

end Collected

namespace TermSum

/-- Further terms added one after the other. -/
def plusTerms (first : TermSum) (ts : List Term) : TermSum :=
  ts.foldl (fun sum t => .join .plus sum (.term t)) first

/-- The sum of the given terms, nested to the left; zero if there are none. -/
def ofTerms : List Term → TermSum
  | [] => .number 0
  | t :: ts => plusTerms (.term t) ts

def collected (p : TermSum) : Collected := Collected.ofTerms p.terms

/-- The sum rebuilt from its collected terms. -/
def collect (p : TermSum) : TermSum := ofTerms p.collected.remaining

end TermSum

end LaurentCalc
