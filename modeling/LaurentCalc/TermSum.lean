import LaurentCalc.Term.Arithmetic

/-!
# Sums of terms

The results of reduction: trees whose leaves are terms and whose nodes add or
subtract. A sum is not collected; its operations work on the tree as it stands
and unite like terms only where a node joins two of them.
-/

namespace LaurentCalc

/-- One term for the sum or difference of two like terms. -/
def Term.unite? (s : Sign) : Term → Term → Option Term
  | .number v, .number w => some (.number (s.apply v w))
  | .monomial x c e, .monomial y d f =>
    if x = y ∧ e = f then some (.monomial x (s.apply c d) e) else none
  | _, _ => none

/-- Two like terms and the one for their sum or difference. -/
inductive Term.Unites (s : Sign) : Term → Term → Term → Prop where
  | numbers (v w : Int) : Unites s (.number v) (.number w) (.number (s.apply v w))
  | multiples (x : String) (c d e : Int) :
      Unites s (.monomial x c e) (.monomial x d e) (.monomial x (s.apply c d) e)

theorem Term.unites_of_unite? {s : Sign} {t u v : Term} (h : t.unite? s u = some v) :
    t.Unites s u v := by
  cases t with
  | number a =>
    cases u with
    | number b =>
      obtain rfl := Option.some.inj h
      exact .numbers a b
    | monomial y d f => cases h
  | monomial x c e =>
    cases u with
    | number b => cases h
    | monomial y d f =>
      rw [unite?] at h
      split at h
      · next hlike =>
        obtain ⟨rfl, rfl⟩ := hlike
        obtain rfl := Option.some.inj h
        exact .multiples x c d e
      · cases h

/-- A tree of additions and subtractions over terms. -/
inductive TermSum where
  | term (t : Term)
  | join (s : Sign) (left right : TermSum)
  deriving DecidableEq

namespace TermSum

abbrev number (v : Int) : TermSum := .term (.number v)

def toExpr : TermSum → Expr
  | .term t => .term t
  | .join s l r => .additive s l.toExpr r.toExpr

/-- The summands from left to right, each with the sign under which it counts. -/
def terms : TermSum → List Term
  | .term t => [t]
  | .join .plus l r => l.terms ++ r.terms
  | .join .minus l r => l.terms ++ r.terms.map Term.neg

/-- Two sums joined; like terms at the top become one. -/
def unite (s : Sign) (p q : TermSum) : TermSum :=
  match p, q with
  | .term t, .term u =>
    match t.unite? s u with
    | some v => .term v
    | none => .join s p q
  | _, _ => .join s p q

/-- The sum with like terms united at every node, from the leaves upward. -/
def united : TermSum → TermSum
  | .term t => .term t
  | .join s l r => unite s l.united r.united

def neg : TermSum → TermSum
  | .term t => .term t.neg
  | .join s l r => .join s l.neg r.neg

/-- The sum under a minus sign: the sign moves past the topmost node, both sides are united. -/
def negated : TermSum → TermSum
  | .term t => .term t.neg
  | .join s l r => .join s l.united.neg r.united.neg

/-- A partial operation at every leaf, from left to right. -/
def mapTerms (f : Term → Attempt Term) : TermSum → Attempt TermSum
  | .term t => return .term (← f t)
  | .join s l r => do
    let l' ← l.mapTerms f
    let r' ← r.mapTerms f
    return .join s l' r'

/-- The product, every leaf of the one times every leaf of the other. -/
def mul : TermSum → TermSum → Attempt TermSum
  | .term t, q => q.mapTerms (·.mul t)
  | .join s l r, q => do
    let l' ← l.mul q
    let r' ← r.mul q
    return .join s l' r'

/-- A term divided by a sum that unites to a single term. -/
def divTerm (t : Term) (q : TermSum) : Attempt TermSum :=
  match q.united with
  | .term u => return .term (← t.div u)
  | .join .. => .error .noRule

/-- The quotient, leaf by leaf; where that has no rule, one if both sums unite to the same tree. -/
def div : TermSum → TermSum → Attempt TermSum
  | .term t, q => divTerm t q
  | .join s l r, q =>
    Attempt.orIfNoRule
      (do
        let l' ← l.div q
        let r' ← r.div q
        return .join s l' r')
      (if (join s l r).united = q.united then .ok (number 1) else .error .noRule)

def scale : Scaling → TermSum → TermSum → Attempt TermSum
  | .mul => mul
  | .div => div

end TermSum

end LaurentCalc
