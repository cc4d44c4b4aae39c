import LaurentCalc.Proofs.Denominators
import LaurentCalc.Proofs.Termination

/-!
# Expressions without sums

An expression without additions and subtractions stands for one term, and can be evaluated as
such: the left operand before the right one and an exponent before its base, up to the first
failure. The rules go other ways, where reduced operands are put together again, factors change
places and a failed quotient is tried once more, but they come to the same outcome.
-/

namespace LaurentCalc

set_option autoImplicit false

namespace Term

/-- The exponent of the name; a number has the exponent zero. -/
def exponent : Term → Int
  | .number _ => 0
  | .monomial _ _ e => e

/-- The term of the given parts. Without a name the exponent does not count. -/
def ofParts (name? : Option String) (coefficient exponent : Int) : Term :=
  match name? with
  | none => .number coefficient
  | some x => .monomial x coefficient exponent

end Term

/-- Coefficients are multiplied, or divided and truncated. -/
def Scaling.coefficient : Scaling → Int → Int → Attempt Int
  | .mul, a, b => .ok (a * b)
  | .div, a, b => quotient a b

/-- Exponents are added by a product and subtracted by a quotient. -/
def Scaling.exponent : Scaling → Int → Int → Int
  | .mul, e, f => e + f
  | .div, e, f => e - f

namespace Term

/-- Two terms scaled part by part. There is no rule for two different names. -/
def combine (s : Scaling) (t u : Term) : Attempt Term :=
  if ∀ x ∈ t.name?, ∀ y ∈ u.name?, x = y then do
    let c ← s.coefficient t.weight u.weight
    return ofParts (t.name?.or u.name?) c (s.exponent t.exponent u.exponent)
  else .error .noRule

/-- A natural power of a base as it was evaluated. Under the exponent zero a base may lack a rule,
but must not be zero. -/
def powerOf (node : Expr) (base : Attempt Term) : Nat → Attempt Term
  | 0 =>
    Attempt.orIfNoRule
      (do
        let t ← base
        if t.weight = 0 then .error (.zeroToZero node) else return .number 1)
      (.ok (.number 1))
  | n + 1 => do
    let t ← base
    return ofParts t.name? (t.weight ^ (n + 1)) (t.exponent * (n + 1))

end Term

namespace Expr

/-- Expressions of terms, signs, products, quotients and powers. -/
inductive SumFree : Expr → Prop where
  | term (t : Term) : SumFree (.term t)
  | sign (s : Sign) {e : Expr} (h : SumFree e) : SumFree (.unary (.sign s) e)
  | scaling (s : Scaling) {l r : Expr} (hl : SumFree l) (hr : SumFree r) : SumFree (.scaling s l r)
  | power {base exponent : Expr} (hbase : SumFree base) (hexponent : SumFree exponent) :
      SumFree (.binary .power base exponent)

/-- The term for which an expression without sums stands, or the first failure. -/
def evalTerm : Expr → Attempt Term
  | .term t => .ok t
  | .unary (.sign .plus) e => e.evalTerm
  | .unary (.sign .minus) e => return (← e.evalTerm).neg
  | .binary (.scaling s) l r => do
    let t ← l.evalTerm
    let u ← r.evalTerm
    t.combine s u
  | .binary .power l r => do
    match ← r.evalTerm with
    | .number (.ofNat n) => Term.powerOf (.binary .power l r) l.evalTerm n
    | _ => .error .noRule
  | .unary (.unknown _) _ | .binary (.additive _) _ _ | .binary (.unknown _) _ _ => .error .noRule

end Expr

namespace Term

theorem combine_of_like {s : Scaling} {t u : Term} (h : ∀ x ∈ t.name?, ∀ y ∈ u.name?, x = y) :
    t.combine s u = (s.coefficient t.weight u.weight).map
      (ofParts (t.name?.or u.name?) · (s.exponent t.exponent u.exponent)) := by
  rw [combine, if_pos h]
  cases s.coefficient t.weight u.weight <;> rfl

/-- The rules for the shapes of two terms say the same as the one for their parts. -/
theorem scale_eq_combine (s : Scaling) (t u : Term) : t.scale s u = t.combine s u := by
  cases t with
  | number v =>
    rw [combine_of_like (by rintro x ⟨⟩)]
    cases u with
    | number w => cases s <;> rfl
    | monomial y d f =>
      cases s with
      | mul =>
        change Except.ok (monomial y (d * v) f) = Except.ok (monomial y (v * d) (0 + f))
        rw [Int.mul_comm, Int.zero_add]
      | div =>
        change (quotient v d).map (monomial y · (-f)) = (quotient v d).map (monomial y · (0 - f))
        rw [Int.zero_sub]
  | monomial x c e =>
    cases u with
    | number w =>
      rw [combine_of_like (by rintro y - z ⟨⟩)]
      cases s with
      | mul =>
        change Except.ok (monomial x (c * w) e) = Except.ok (monomial x (c * w) (e + 0))
        rw [Int.add_zero]
      | div =>
        change (quotient c w).map (monomial x · e) = (quotient c w).map (monomial x · (e - 0))
        rw [Int.sub_zero]
    | monomial y d f =>
      by_cases hname : x = y
      · subst hname
        rw [combine_of_like]
        · cases s with
          | mul => exact if_pos rfl
          | div => exact if_pos rfl
        · rintro _ ⟨⟩ _ ⟨⟩
          rfl
      · rw [combine, if_neg fun h => hname (h x rfl y rfl)]
        cases s with
        | mul => exact if_neg hname
        | div => exact if_neg hname

theorem power_eq_ofParts (n : Nat) (t : Term) :
    t.power n = ofParts t.name? (t.weight ^ n) (t.exponent * n) := by
  cases t with
  | number v => exact congrArg number (raise_eq_pow v n)
  | monomial x c e => exact congrArg (monomial x · (e * n)) (raise_eq_pow c n)

end Term

namespace Expr

variable {e l r : Expr}

theorem SumFree.not_isSum (h : e.SumFree) : ¬e.IsSum := by
  cases h <;> exact id

/-- Operands that are no sums are reduced from left to right and then scaled. The second look at
equal operands of a quotient changes nothing. -/
theorem reduce_scaling_of_not_isSum (s : Scaling) (hl : ¬l.IsSum) (hr : ¬r.IsSum) :
    (scaling s l r).reduce = l.reduce >>= fun p => r.reduce >>= fun q => p.scale s q := by
  have hdistribute :
      distribute s l r = l.reduce >>= fun p => r.reduce >>= fun q => p.scale s q := by
    have hsum : ∀ t a x y, l = .term t → r = .additive a x y → False := by
      rintro t a x y - rfl
      exact hr trivial
    have hadditive : ∀ a x y, l = .additive a x y → False := by
      rintro a x y rfl
      exact hl trivial
    exact distribute_of_not_distributes (distributes_operands s hsum hadditive) hsum
  cases s with
  | mul => rw [reduce, hdistribute]
  | div =>
    rw [reduce, hdistribute]
    cases l.reduce with
    | error o => cases o <;> rfl
    | ok p =>
      cases r.reduce with
      | error o => cases o <;> rfl
      | ok q => exact TermSum.div_orIfNoRule p q

theorem zeroPower_map_term (node : Expr) (base : Attempt Term) :
    zeroPower node (base.map TermSum.term) = (Term.powerOf node base 0).map TermSum.term := by
  rw [zeroPower_eq]
  cases base with
  | error o => cases o <;> rfl
  | ok t =>
    rw [Term.powerOf, ok_bind]
    change Attempt.orIfNoRule (if TermSum.isZeroTerm (.term t) then _ else _) _ = _
    by_cases hzero : t.weight = 0
    · rw [if_pos hzero, TermSum.isZeroTerm, if_pos (decide_eq_true hzero)]
      rfl
    · rw [if_neg hzero, TermSum.isZeroTerm, if_neg (by simpa using hzero)]
      rfl

theorem scale_map_term (s : Scaling) (t u : Term) :
    TermSum.scale s (.term t) (.term u) = (t.combine s u).map TermSum.term := by
  rw [TermSum.scale_terms, t.scale_eq_combine]
  cases t.combine s u <;> rfl

theorem power_map_term (node : Expr) (base : Attempt Term) (n : Nat) :
    (base.map TermSum.term >>= fun p => p.power (n + 1)) =
      (Term.powerOf node base (n + 1)).map TermSum.term := by
  cases base with
  | error o => rfl
  | ok t => exact congrArg (fun v => Except.ok (TermSum.term v)) (t.power_eq_ofParts (n + 1))

/-- Powers of operands that reduce to what they are evaluated to. -/
theorem reduce_power_eq_evalTerm (hl : l.reduce = l.evalTerm.map TermSum.term)
    (hr : r.reduce = r.evalTerm.map TermSum.term) :
    (binary .power l r).reduce = (binary .power l r).evalTerm.map TermSum.term := by
  rw [reduce, hr, evalTerm]
  cases r.evalTerm with
  | error o => rfl
  | ok u =>
    cases u with
    | monomial x c e => rfl
    | number n =>
      cases n with
      | negSucc n => exact if_pos (Int.negSucc_lt_zero n)
      | ofNat n =>
        rw [hl]
        cases n with
        | zero => exact zeroPower_map_term (.binary .power l r) l.evalTerm
        | succ n => exact power_map_term (.binary .power l r) l.evalTerm n

theorem SumFree.reduce_eq (h : e.SumFree) : e.reduce = e.evalTerm.map TermSum.term := by
  induction h with
  | term t =>
    rw [reduce]
    rfl
  | @sign s e h ih =>
    cases s with
    | plus => rw [reduce, ih, evalTerm]
    | minus =>
      rw [reduce, ih, evalTerm]
      cases e.evalTerm <;> rfl
  | @scaling s l r hl hr ihl ihr =>
    rw [reduce_scaling_of_not_isSum s hl.not_isSum hr.not_isSum, ihl, ihr, evalTerm]
    cases l.evalTerm with
    | error o => rfl
    | ok t =>
      cases r.evalTerm with
      | error o => rfl
      | ok u => exact scale_map_term s t u
  | power hbase hexponent ihbase ihexponent => exact reduce_power_eq_evalTerm ihbase ihexponent

/-- An expression without sums reduces to the term to which it is evaluated from left to right, or
fails as the evaluation does. So do the rules as they are written, whatever they ask for on the
way. -/
theorem reduce_sumFree (h : e.SumFree) :
    e.reduce = e.evalTerm.map TermSum.term ∧
    ∃ n, ∀ m outcome,
      Course.Ends e.rule m outcome ↔ m = n ∧ outcome = e.evalTerm.map Expr.term := by
  refine ⟨h.reduce_eq, ?_⟩
  have htree : Rule.reduceTree e = e.evalTerm.map Expr.term := by
    rw [Rule.reduceTree, h.reduce_eq]
    cases e.evalTerm <;> rfl
  rw [← htree]
  exact exists_ends_iff e

set_option maxRecDepth 20000 in
/-- A negative exponent in a divisor and a truncated coefficient, a division by zero on the right of
an operand without a rule, and a zero to the power zero that is met before it. -/
theorem reduce_sumFree_outcomes :
    (scaling .div (.unary (.sign .minus) (scaling .mul (number 7) (.term (.named "x"))))
        (scaling .div (number 2) (.term (.named "x")))).reduce =
      .ok (.term (.monomial "x" (-3) 2)) ∧
    (scaling .mul (scaling .mul (.term (.named "x")) (.term (.named "y")))
        (scaling .div (number 1) (number 0))).reduce = .error .noRule ∧
    (scaling .mul (binary .power (scaling .mul (number 0) (.term (.named "x"))) (number 0))
        (scaling .div (number 1) (number 0))).reduce =
      .error (.zeroToZero
        (binary .power (scaling .mul (number 0) (.term (.named "x"))) (number 0))) := by
  have hx : SumFree (.term (.named "x")) := .term _
  have hdivision : SumFree (scaling .div (number 1) (number 0)) :=
    .scaling .div (.term _) (.term _)
  refine ⟨?_, ?_, ?_⟩
  · refine (reduce_sumFree (.scaling .div (.sign .minus (.scaling .mul (.term _) hx))
      (.scaling .div (.term _) hx))).1.trans ?_
    cbv
  · refine (reduce_sumFree (.scaling .mul (.scaling .mul hx (.term _)) hdivision)).1.trans ?_
    cbv
  · refine (reduce_sumFree (.scaling .mul (.power (.scaling .mul (.term _) hx) (.term _))
      hdivision)).1.trans ?_
    cbv

end Expr

end LaurentCalc
