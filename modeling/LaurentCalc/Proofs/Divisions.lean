import LaurentCalc.Proofs.Attempt
import LaurentCalc.Reduction

/-!
# The divisions of a reduction

Reduction once more, now with a record of every integer division it makes: in the
order in which they are made, those of abandoned branches and of repeated
reductions included. The record changes no outcome, and it stays empty where the
expression has no quotient.
-/

namespace LaurentCalc

set_option autoImplicit false

structure Division where
  numerator : Int
  denominator : Int
  deriving DecidableEq

/-- The denominator divides the numerator, so that nothing is cut off. -/
def Division.Exact (d : Division) : Prop := d.denominator ∣ d.numerator

instance (d : Division) : Decidable d.Exact := inferInstanceAs (Decidable (_ ∣ _))

/-- An attempt and the divisions made in its course. -/
structure Recorded (α : Type) where
  divisions : List Division
  outcome : Attempt α

namespace Recorded

variable {α β : Type}

def undivided (x : Attempt α) : Recorded α := ⟨[], x⟩

/-- A second step, taken only if the first one succeeds. -/
def andThen (x : Recorded α) (f : α → Recorded β) : Recorded β :=
  match x.outcome with
  | .ok a => ⟨x.divisions ++ (f a).divisions, (f a).outcome⟩
  | .error o => ⟨x.divisions, .error o⟩

instance : Monad Recorded where
  pure a := undivided (.ok a)
  bind := andThen

/-- The second attempt after the first, if no rule applied to the first. -/
def orIfNoRule (first second : Recorded α) : Recorded α :=
  match first.outcome with
  | .error .noRule => ⟨first.divisions ++ second.divisions, second.outcome⟩
  | _ => first

/-- The same divisions with an outcome that depends on the former one. -/
def mapOutcome (f : Attempt α → Attempt β) (x : Recorded α) : Recorded β :=
  ⟨x.divisions, f x.outcome⟩

/-- The attempt succeeds with a value, and all its divisions are exact. -/
def Yields (x : Recorded α) (a : α) : Prop := x.outcome = .ok a ∧ ∀ d ∈ x.divisions, d.Exact

@[simp] theorem outcome_undivided (x : Attempt α) : (undivided x).outcome = x := rfl

@[simp] theorem divisions_undivided (x : Attempt α) : (undivided x).divisions = [] := rfl

@[simp] theorem outcome_pure (a : α) : (pure a : Recorded α).outcome = .ok a := rfl

@[simp] theorem divisions_pure (a : α) : (pure a : Recorded α).divisions = [] := rfl

@[simp] theorem outcome_mapOutcome (f : Attempt α → Attempt β) (x : Recorded α) :
    (x.mapOutcome f).outcome = f x.outcome := rfl

@[simp] theorem divisions_mapOutcome (f : Attempt α → Attempt β) (x : Recorded α) :
    (x.mapOutcome f).divisions = x.divisions := rfl

@[simp] theorem outcome_bind (x : Recorded α) (f : α → Recorded β) :
    (x >>= f).outcome = x.outcome >>= fun a => (f a).outcome := by
  change (x.andThen f).outcome = _
  unfold andThen
  cases x.outcome <;> rfl

@[simp] theorem outcome_orIfNoRule (x y : Recorded α) :
    (x.orIfNoRule y).outcome = x.outcome.orIfNoRule y.outcome := by
  unfold orIfNoRule
  split
  · next h => rw [h, Attempt.noRule_orIfNoRule]
  · next h =>
    unfold Attempt.orIfNoRule
    split
    · next h' => exact absurd h' h
    · rfl

theorem divisions_bind_eq_nil {x : Recorded α} {f : α → Recorded β} (hx : x.divisions = [])
    (hf : ∀ a, (f a).divisions = []) : (x >>= f).divisions = [] := by
  change (x.andThen f).divisions = []
  unfold andThen
  split
  · next a _ => rw [hx, hf a, List.append_nil]
  · exact hx

theorem yields_undivided_iff {x : Attempt α} {a : α} : (undivided x).Yields a ↔ x = .ok a :=
  ⟨fun h => h.1, fun h => ⟨h, fun _ hd => absurd hd List.not_mem_nil⟩⟩

theorem yields_pure_iff {a b : α} : (pure a : Recorded α).Yields b ↔ a = b :=
  yields_undivided_iff.trans ⟨Except.ok.inj, congrArg Except.ok⟩

theorem yields_bind_iff {x : Recorded α} {f : α → Recorded β} {b : β} :
    (x >>= f).Yields b ↔ ∃ a, x.Yields a ∧ (f a).Yields b := by
  change (x.andThen f).Yields b ↔ _
  unfold andThen Yields
  cases h : x.outcome with
  | error o =>
    constructor
    · rintro ⟨ho, -⟩
      cases ho
    · rintro ⟨a, ⟨ha, -⟩, -⟩
      cases ha
  | ok a =>
    simp only [List.mem_append, or_imp, forall_and]
    constructor
    · rintro ⟨hb, hx, hf⟩
      exact ⟨a, ⟨rfl, hx⟩, hb, hf⟩
    · rintro ⟨a', ⟨ha, hx⟩, hb, hf⟩
      obtain rfl := Except.ok.inj ha
      exact ⟨hb, hx, hf⟩

theorem Yields.of_orIfNoRule {x y : Recorded α} {a : α} (h : (x.orIfNoRule y).Yields a) :
    x.Yields a ∨ y.Yields a := by
  unfold orIfNoRule at h
  split at h
  · exact Or.inr ⟨h.1, fun d hd => h.2 d (List.mem_append_right _ hd)⟩
  · exact Or.inl h

end Recorded

def quotientRecorded (numerator denominator : Int) : Recorded Int :=
  ⟨[⟨numerator, denominator⟩], quotient numerator denominator⟩

def Term.divRecorded : Term → Term → Recorded Term
  | .monomial x c e, .number v => (quotientRecorded c v).mapOutcome (Except.map (.monomial x · e))
  | .number v, .monomial x c e =>
    (quotientRecorded v c).mapOutcome (Except.map (.monomial x · (-e)))
  | .number v, .number w => (quotientRecorded v w).mapOutcome (Except.map .number)
  | .monomial x c e, .monomial y d f =>
    if x = y then (quotientRecorded c d).mapOutcome (Except.map (.monomial x · (e - f)))
    else .undivided (.error .noRule)

@[simp] theorem Term.outcome_divRecorded (t u : Term) : (t.divRecorded u).outcome = t.div u := by
  cases t with
  | number v => cases u <;> rfl
  | monomial x c e =>
    cases u with
    | number w => rfl
    | monomial y d f =>
      simp only [divRecorded, div]
      split <;> rfl

namespace TermSum

def divTermRecorded (t : Term) (q : TermSum) : Recorded TermSum :=
  match q.united with
  | .term u => return .term (← t.divRecorded u)
  | .join .. => .undivided (.error .noRule)

def divRecorded : TermSum → TermSum → Recorded TermSum
  | .term t, q => divTermRecorded t q
  | .join s l r, q =>
    Recorded.orIfNoRule
      (do
        let l' ← l.divRecorded q
        let r' ← r.divRecorded q
        return .join s l' r')
      (.undivided (if (join s l r).united = q.united then .ok (number 1) else .error .noRule))

def scaleRecorded : Scaling → TermSum → TermSum → Recorded TermSum
  | .mul => fun p q => .undivided (p.mul q)
  | .div => divRecorded

@[simp] theorem outcome_divTermRecorded (t : Term) (q : TermSum) :
    (divTermRecorded t q).outcome = divTerm t q := by
  unfold divTermRecorded divTerm
  cases q.united with
  | term u => simp only [Recorded.outcome_bind, Term.outcome_divRecorded]; rfl
  | join s l r => rfl

@[simp] theorem outcome_divRecorded (p q : TermSum) : (p.divRecorded q).outcome = p.div q := by
  induction p with
  | term t => exact outcome_divTermRecorded t q
  | join s l r ihl ihr =>
    simp only [divRecorded, div, Recorded.outcome_orIfNoRule, Recorded.outcome_bind,
      Recorded.outcome_undivided, Recorded.outcome_pure, ihl, ihr, pure_eq_ok]

@[simp] theorem outcome_scaleRecorded (s : Scaling) (p q : TermSum) :
    (scaleRecorded s p q).outcome = scale s p q := by
  cases s
  · rfl
  · exact outcome_divRecorded p q

end TermSum

namespace Expr

/-- What the exponent zero makes of an attempt to reduce the base. -/
def zeroPower (power : Expr) : Attempt TermSum → Attempt TermSum
  | .ok base => if base.isZeroTerm then .error (.zeroToZero power) else .ok (.number 1)
  | .error .noRule => .ok (.number 1)
  | .error obstacle => .error obstacle

mutual

/-- The reduction of an expression, with the divisions put on record. -/
def reduceRecorded : Expr → Recorded TermSum
  | .term t => return .term t
  | .unary (.sign .plus) e => reduceRecorded e
  | .unary (.sign .minus) e => return (← reduceRecorded e).negated
  | .unary (.unknown _) _ => .undivided (.error .noRule)
  | .binary (.additive s) l r => do
    let p ← reduceRecorded l
    let q ← reduceRecorded r
    return p.unite s q
  | .binary (.scaling .mul) l r => distributeRecorded .mul l r
  | .binary (.scaling .div) l r =>
    Recorded.orIfNoRule (distributeRecorded .div l r)
      (do
        let p ← reduceRecorded l
        let q ← reduceRecorded r
        .undivided (if p = q then .ok (.number 1) else .error .noRule))
  | .binary .power l r => do
    match ← reduceRecorded r with
    | .term (.number n) =>
      if n < 0 then .undivided (.error .noRule)
      else if n = 0 then (reduceRecorded l).mapOutcome (zeroPower (.binary .power l r))
      else
        let base ← reduceRecorded l
        .undivided (base.power n.toNat)
    | _ => .undivided (.error .noRule)
  | .binary (.unknown _) _ _ => .undivided (.error .noRule)
termination_by e => 2 * e.size
decreasing_by
  all_goals simp only [size]
  all_goals omega

def distributeRecorded (s : Scaling) : Expr → Expr → Recorded TermSum
  | .term t, .term u =>
    match s with
    | .mul => .undivided (return .term (← t.mul u))
    | .div => return .term (← t.divRecorded u)
  | .term t, .binary (.additive a) x y =>
    match s with
    | .mul => do
      let p ← reduceRecorded (.scaling .mul x (.term t))
      let q ← reduceRecorded (.scaling .mul y (.term t))
      return .join a p q
    | .div => do
      match ← reduceRecorded (.additive a x y) with
      | .term u => return .term (← t.divRecorded u)
      | .join .. => .undivided (.error .noRule)
  | .binary (.additive a) x y, .unary op e => do
    let p ← reduceRecorded (.additive a x y)
    let q ← reduceRecorded (.unary op e)
    p.scaleRecorded s q
  | .binary (.additive a) x y, r => do
    let p ← reduceRecorded (.scaling s x r)
    let q ← reduceRecorded (.scaling s y r)
    return .join a p q
  | l, r => do
    let p ← reduceRecorded l
    let q ← reduceRecorded r
    p.scaleRecorded s q
termination_by l r => 2 * (l.size + r.size) + 1
decreasing_by
  all_goals try simp only [size]
  all_goals omega

end

@[simp] theorem outcome_reduceRecorded (e : Expr) : e.reduceRecorded.outcome = e.reduce := by
  induction e using (reduceInduction fun s l r =>
    (distributeRecorded s l r).outcome = distribute s l r) with
  | term t => rw [reduceRecorded, reduce]; rfl
  | plus e ih => rw [reduceRecorded, reduce, ih]
  | minus e ih => simp only [reduceRecorded, reduce, Recorded.outcome_bind, ih]; rfl
  | unknownSign => rw [reduceRecorded, reduce]; rfl
  | additive s l r ihl ihr =>
    simp only [reduceRecorded, reduce, Recorded.outcome_bind, ihl, ihr]
    rfl
  | mul l r ih => rw [reduceRecorded, reduce, ih]
  | div l r ih ihl ihr =>
    simp only [reduceRecorded, reduce, Recorded.outcome_orIfNoRule, Recorded.outcome_bind, ih, ihl,
      ihr]
    rfl
  | power l r ihr ihl =>
    simp only [reduceRecorded, reduce, Recorded.outcome_bind, ihr]
    refine bind_congr fun p => ?_
    cases p with
    | join s p q => rfl
    | term t =>
      cases t with
      | monomial x c e => rfl
      | number n =>
        simp only [apply_ite Recorded.outcome, Recorded.outcome_undivided,
          Recorded.outcome_mapOutcome, Recorded.outcome_bind, ihl]
        rfl
  | unknownOperator => rw [reduceRecorded, reduce]; rfl
  | terms s t u =>
    cases s
    · simp only [distributeRecorded, distribute]
      rfl
    · simp only [distributeRecorded, distribute, Recorded.outcome_bind, Term.outcome_divRecorded]
      rfl
  | termMulSum t a x y ihx ihy =>
    simp only [distributeRecorded, distribute, Recorded.outcome_bind, ihx, ihy]; rfl
  | termDivSum t a x y ih =>
    simp only [distributeRecorded, distribute, Recorded.outcome_bind, ih]
    refine bind_congr fun p => ?_
    cases p with
    | join s p q => rfl
    | term u => simp only [Recorded.outcome_bind, Term.outcome_divRecorded]; rfl
  | sumSigned s a x y op e ihl ihr =>
    simp only [distributeRecorded, distribute, Recorded.outcome_bind, ihl, ihr,
      TermSum.outcome_scaleRecorded]
  | sum s a x y r hr ihx ihy =>
    rw [distributeRecorded, distribute]
    · simp only [Recorded.outcome_bind, ihx, ihy]; rfl
    · exact hr
    · exact hr
  | operands s l r h₁ h₂ h₃ h₄ ihl ihr =>
    rw [distributeRecorded, distribute]
    · simp only [Recorded.outcome_bind, ihl, ihr, TermSum.outcome_scaleRecorded]
    all_goals assumption

/-- The right operands of the quotients in an expression. -/
def divisors : Expr → List Expr
  | .term _ => []
  | .unary _ e => e.divisors
  | .binary (.scaling .div) l r => r :: (l.divisors ++ r.divisors)
  | .binary _ l r => l.divisors ++ r.divisors

theorem divisors_left {op : BinaryOp} {l r d : Expr} (h : d ∈ l.divisors) :
    d ∈ (binary op l r).divisors := by
  unfold divisors
  split <;> simp_all

theorem divisors_right {op : BinaryOp} {l r d : Expr} (h : d ∈ r.divisors) :
    d ∈ (binary op l r).divisors := by
  unfold divisors
  split <;> simp_all

theorem divisors_binary_eq_nil {op : BinaryOp} {l r : Expr} (h : (binary op l r).divisors = []) :
    l.divisors = [] ∧ r.divisors = [] := by
  simp only [List.eq_nil_iff_forall_not_mem] at h ⊢
  exact ⟨fun d hd => h d (divisors_left hd), fun d hd => h d (divisors_right hd)⟩

theorem divisors_mul_eq_nil {l r : Expr} (hl : l.divisors = []) (hr : r.divisors = []) :
    (scaling .mul l r).divisors = [] := by
  rw [divisors, hl, hr]
  · rfl
  · simp

theorem divisions_reduceRecorded {e : Expr} (h : e.divisors = []) :
    e.reduceRecorded.divisions = [] := by
  induction e using (reduceInduction fun s l r => s = .mul →
    l.divisors = [] → r.divisors = [] → (distributeRecorded s l r).divisions = []) with
  | term t => rw [reduceRecorded]; rfl
  | plus e ih => rw [reduceRecorded]; exact ih h
  | minus e ih =>
    rw [reduceRecorded]
    exact Recorded.divisions_bind_eq_nil (ih h) fun _ => rfl
  | unknownSign => rw [reduceRecorded]; rfl
  | additive s l r ihl ihr =>
    have hlr := divisors_binary_eq_nil h
    rw [reduceRecorded]
    exact Recorded.divisions_bind_eq_nil (ihl hlr.1) fun _ =>
      Recorded.divisions_bind_eq_nil (ihr hlr.2) fun _ => rfl
  | mul l r ih =>
    have hlr := divisors_binary_eq_nil h
    rw [reduceRecorded]
    exact ih rfl hlr.1 hlr.2
  | div l r => cases h
  | power l r ihr ihl =>
    have hlr := divisors_binary_eq_nil h
    rw [reduceRecorded]
    refine Recorded.divisions_bind_eq_nil (ihr hlr.2) fun p => ?_
    split
    · split
      · rfl
      · split
        · exact ihl hlr.1
        · exact Recorded.divisions_bind_eq_nil (ihl hlr.1) fun _ => rfl
    · rfl
  | unknownOperator => rw [reduceRecorded]; rfl
  | terms s t u hs =>
    subst hs
    simp only [distributeRecorded, Recorded.divisions_undivided]
  | termMulSum t a x y ihx ihy _ ht hxy =>
    have hxy' := divisors_binary_eq_nil hxy
    simp only [distributeRecorded]
    exact Recorded.divisions_bind_eq_nil (ihx (divisors_mul_eq_nil hxy'.1 ht)) fun _ =>
      Recorded.divisions_bind_eq_nil (ihy (divisors_mul_eq_nil hxy'.2 ht)) fun _ => rfl
  | termDivSum t a x y ih hs => cases hs
  | sumSigned s a x y op e ihl ihr hs hl hr =>
    subst hs
    simp only [distributeRecorded]
    exact Recorded.divisions_bind_eq_nil (ihl hl) fun _ =>
      Recorded.divisions_bind_eq_nil (ihr hr) fun _ => rfl
  | sum s a x y r hsign ihx ihy hs hl hr =>
    subst hs
    have hxy := divisors_binary_eq_nil hl
    rw [distributeRecorded]
    · exact Recorded.divisions_bind_eq_nil (ihx (divisors_mul_eq_nil hxy.1 hr)) fun _ =>
        Recorded.divisions_bind_eq_nil (ihy (divisors_mul_eq_nil hxy.2 hr)) fun _ => rfl
    · exact hsign
  | operands s l r h₁ h₂ h₃ h₄ ihl ihr hs hl hr =>
    subst hs
    rw [distributeRecorded]
    · exact Recorded.divisions_bind_eq_nil (ihl hl) fun _ =>
        Recorded.divisions_bind_eq_nil (ihr hr) fun _ => rfl
    all_goals assumption

theorem yields_reduceRecorded {e : Expr} {p : TermSum} (hdivisors : e.divisors = [])
    (h : e.reduce = .ok p) : e.reduceRecorded.Yields p := by
  refine ⟨e.outcome_reduceRecorded.trans h, fun d hd => ?_⟩
  rw [divisions_reduceRecorded hdivisors] at hd
  exact absurd hd List.not_mem_nil

end Expr

end LaurentCalc
