import LaurentCalc.Proofs.Value

/-!
# Marks of terms

By what terms are told apart: numbers have no mark, and a power is marked by its name and its
exponent, the exponent zero included. Terms that unite have the same mark. A label that does not
depend on the sign of a term sorts the coefficients of a sum.
-/

namespace LaurentCalc

set_option autoImplicit false

namespace Term

/-- The name and exponent of a power; numbers have no mark. -/
def mark : Term → Option (String × Int)
  | .number _ => none
  | .monomial x _ e => some (x, e)

/-- The mark, where a power with the exponent zero counts as a constant. -/
def key (t : Term) : Option (String × Int) := t.mark.filter fun power => power.2 ≠ 0

def name? (t : Term) : Option String := t.mark.map Prod.fst

def names (t : Term) : List String := t.name?.toList

/-- Two numbers, or two multiples of one power. -/
def Alike (t u : Term) : Prop := t.mark = u.mark

variable {t u v : Term}

@[simp] theorem name?_number (v : Int) : (number v).name? = none := rfl

@[simp] theorem name?_monomial (x : String) (c e : Int) : (monomial x c e).name? = some x := rfl

@[simp] theorem names_number (v : Int) : (number v).names = [] := rfl

@[simp] theorem names_monomial (x : String) (c e : Int) : (monomial x c e).names = [x] := rfl

theorem mark_neg (t : Term) : t.neg.mark = t.mark := by cases t <;> rfl

theorem key_neg (t : Term) : t.neg.key = t.key := by rw [key, key, mark_neg]

theorem key_monomial (x : String) (c e : Int) :
    (monomial x c e).key = if e = 0 then none else some (x, e) := by
  by_cases h : e = 0 <;> simp [key, mark, h]

theorem Alike.refl (t : Term) : t.Alike t := rfl

theorem Alike.trans (h : t.Alike u) (h' : u.Alike v) : t.Alike v := Eq.trans h h'

/-- Terms that unite are like each other and like the term that they unite to. -/
theorem Unites.alike {s : Sign} (h : t.Unites s u v) : t.Alike v ∧ u.Alike v := by
  cases h <;> exact ⟨rfl, rfl⟩

theorem alike_of_unite? {s : Sign} (h : t.unite? s u = some v) : t.Alike v ∧ u.Alike v :=
  (unites_of_unite? h).alike

theorem weight_of_unite? {s : Sign} (h : t.unite? s u = some v) :
    v.weight = s.apply t.weight u.weight := by
  cases unites_of_unite? h <;> rfl

end Term

namespace TermSum

variable {κ : Type} [DecidableEq κ]

/-- The coefficients of the summands that have a given label. -/
def weights (label : Term → κ) (k : κ) (p : TermSum) : List Int :=
  (p.terms.filter fun t => label t = k).map Term.weight

theorem sum_weights (label : Term → κ) (k : κ) (p : TermSum) :
    (p.weights label k).sum = (p.terms.map fun t => if label t = k then t.weight else 0).sum := by
  rw [weights]
  induction p.terms with
  | nil => rfl
  | cons t ts ih =>
    rw [List.map_cons, List.sum_cons, ← ih]
    by_cases h : label t = k
    · rw [if_pos h, List.filter_cons_of_pos (by simpa using h), List.map_cons, List.sum_cons]
    · rw [if_neg h, List.filter_cons_of_neg (by simpa using h), Int.zero_add]

end TermSum

end LaurentCalc
