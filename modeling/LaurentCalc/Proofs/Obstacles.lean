import LaurentCalc.Proofs.Divisions

/-!
# Obstacles to a reduction

Products of sums lack a rule at worst, and quotients are the only arithmetic that may
divide by zero. They do so only if a divisor that stands in the expression reduces to terms
that unite to zero. A power is blamed for raising zero to the power zero only if it stands
in the expression, its exponent reduces to the number zero and its base to a single term
of weight zero.
-/

namespace LaurentCalc

set_option autoImplicit false

open Attempt

section Arithmetic

variable {P : Obstacle → Prop} (hrule : P .noRule)
include hrule

theorem Term.meets_mul (t u : Term) : (t.mul u).Meets P := by
  cases t with
  | number v => cases u <;> exact meets_ok _
  | monomial x c e =>
    cases u with
    | number w => exact meets_ok _
    | monomial y d f =>
      simp only [mul]
      split
      · exact meets_ok _
      · exact meets_error hrule

omit hrule in
theorem TermSum.meets_mapTerms {f : Term → Attempt Term} (hf : ∀ t, (f t).Meets P) (p : TermSum) :
    (p.mapTerms f).Meets P := by
  induction p with
  | term t => exact (hf t).bind fun _ _ => meets_ok _
  | join s l r ihl ihr => exact ihl.bind fun _ _ => ihr.bind fun _ _ => meets_ok _

theorem TermSum.meets_mul (p q : TermSum) : (p.mul q).Meets P := by
  induction p with
  | term t => exact meets_mapTerms (fun u => u.meets_mul hrule t) q
  | join s l r ihl ihr => exact ihl.bind fun _ _ => ihr.bind fun _ _ => meets_ok _

theorem TermSum.meets_mulRepeatedly (factor : TermSum) (n : Nat) (p : TermSum) :
    (mulRepeatedly factor n p).Meets P := by
  induction n generalizing p with
  | zero => exact meets_ok p
  | succ n ih => exact (meets_mul hrule p factor).bind fun next _ => ih next.collect

theorem TermSum.meets_power (n : Nat) (p : TermSum) : (p.power n).Meets P := by
  cases p with
  | term t => exact meets_ok _
  | join s l r => exact meets_mulRepeatedly hrule _ _ _

omit hrule in
theorem meets_quotient {a b : Int} (hdivision : b = 0 → P (.divisionByZero a)) :
    (quotient a b).Meets P := by
  unfold quotient
  split
  · next hzero => exact meets_error (hdivision hzero)
  · exact meets_ok _

theorem Term.meets_div {t u : Term} (hdivision : u.weight = 0 → P (.divisionByZero t.weight)) :
    (t.div u).Meets P := by
  cases t with
  | number v => cases u <;> exact (meets_quotient hdivision).map
  | monomial x c e =>
    cases u with
    | number w => exact (meets_quotient hdivision).map
    | monomial y d f =>
      simp only [div]
      split
      · exact (meets_quotient hdivision).map
      · exact meets_error hrule

/-- Where a sum divides by zero, the terms of the divisor unite to zero. -/
theorem TermSum.meets_div {q : TermSum}
    (hdivision : ∀ u, q.united = .term u → u.weight = 0 → ∀ n, P (.divisionByZero n))
    (p : TermSum) : (p.div q).Meets P := by
  induction p with
  | term t =>
    rw [div, divTerm]
    split
    · next u hu =>
      exact (Term.meets_div hrule fun hzero => hdivision u hu hzero _).bind fun _ _ => meets_ok _
    · exact meets_error hrule
  | join s l r ihl ihr =>
    rw [div]
    apply Meets.orIfNoRule
    · exact ihl.bind fun _ _ => ihr.bind fun _ _ => meets_ok _
    · split
      · exact meets_ok _
      · exact meets_error hrule

theorem TermSum.meets_scale {s : Scaling} {q : TermSum}
    (hdivision : s = .div → ∀ u, q.united = .term u → u.weight = 0 → ∀ n, P (.divisionByZero n))
    (p : TermSum) : (scale s p q).Meets P := by
  cases s with
  | mul => exact meets_mul hrule p q
  | div => exact meets_div hrule (hdivision rfl) p

end Arithmetic

namespace Expr

def powers : Expr → List Expr
  | .term _ => []
  | .unary _ e => e.powers
  | .binary .power l r => .binary .power l r :: (l.powers ++ r.powers)
  | .binary _ l r => l.powers ++ r.powers

/-- A power of which base and exponent reduce to zero. -/
inductive ZeroPower : Expr → Prop where
  | mk {base exponent : Expr} {p : TermSum} (hexponent : exponent.reduce = .ok (.number 0))
      (hbase : base.reduce = .ok p) (hzero : p.isZeroTerm = true) :
      ZeroPower (.binary .power base exponent)

/-- A divisor of which the terms, once it is reduced, unite to zero. -/
inductive ZeroDivisor : Expr → Prop where
  | mk {divisor : Expr} {q : TermSum} {u : Term} (hdivisor : divisor.reduce = .ok q)
      (hunited : q.united = .term u) (hzero : u.weight = 0) : ZeroDivisor divisor

theorem powers_subset_binary (op : BinaryOp) (l r : Expr) :
    l.powers ++ r.powers ⊆ (binary op l r).powers := by
  cases op with
  | power => exact List.subset_cons_self _ _
  | additive | scaling | unknown => exact List.Subset.refl _

theorem powers_left {op : BinaryOp} {l r power : Expr} (h : power ∈ l.powers) :
    power ∈ (binary op l r).powers :=
  powers_subset_binary op l r (List.mem_append_left _ h)

theorem powers_right {op : BinaryOp} {l r power : Expr} (h : power ∈ r.powers) :
    power ∈ (binary op l r).powers :=
  powers_subset_binary op l r (List.mem_append_right _ h)

end Expr

/-- If zero to the power zero is the obstacle, then one of the given powers is to blame. -/
def Obstacle.Blames (powers : List Expr) : Obstacle → Prop
  | .zeroToZero power => power ∈ powers ∧ power.ZeroPower
  | .noRule | .divisionByZero _ => True

/-- An arithmetic failure comes from one of the divisors or powers in an expression. -/
def Obstacle.ComesFrom (e : Expr) : Obstacle → Prop
  | .divisionByZero _ => ∃ divisor ∈ e.divisors, divisor.ZeroDivisor
  | o => o.Blames e.powers

section

open Obstacle

variable {α : Type} {x : Attempt α} {e e' l r : Expr}

theorem Attempt.Meets.comesFrom_mono (h : x.Meets (ComesFrom e))
    (hdivisors : e.divisors ⊆ e'.divisors) (hpowers : e.powers ⊆ e'.powers) :
    x.Meets (ComesFrom e') := by
  refine h.mono fun o ho => ?_
  cases o with
  | noRule => trivial
  | divisionByZero n =>
    obtain ⟨divisor, hmem, hzero⟩ := ho
    exact ⟨divisor, hdivisors hmem, hzero⟩
  | zeroToZero power => exact ⟨hpowers ho.1, ho.2⟩

theorem Attempt.Meets.comesFrom_left (op : BinaryOp) (h : x.Meets (ComesFrom l)) :
    x.Meets (ComesFrom (.binary op l r)) :=
  h.comesFrom_mono (fun _ => Expr.divisors_left) fun _ => Expr.powers_left

theorem Attempt.Meets.comesFrom_right (op : BinaryOp) (h : x.Meets (ComesFrom r)) :
    x.Meets (ComesFrom (.binary op l r)) :=
  h.comesFrom_mono (fun _ => Expr.divisors_right) fun _ => Expr.powers_right

end

namespace Expr

open Obstacle

variable {l l' r : Expr}

/-- A side of a sum may take the place of the sum before it is scaled. -/
theorem comesFrom_scaling (s : Scaling) {x : Attempt TermSum} (hdivisors : l.divisors ⊆ l'.divisors)
    (hpowers : l.powers ⊆ l'.powers) (h : x.Meets (ComesFrom (scaling s l r))) :
    x.Meets (ComesFrom (scaling s l' r)) := by
  have happend : ∀ {a b c : List Expr}, a ⊆ b → a ++ c ⊆ b ++ c := fun h _ hmem =>
    List.mem_append.mpr ((List.mem_append.mp hmem).imp_left fun ha => h ha)
  apply h.comesFrom_mono _ (happend hpowers)
  cases s with
  | mul => exact happend hdivisors
  | div => exact List.cons_subset_cons _ (happend hdivisors)

theorem comesFrom_mul_comm {x : Attempt TermSum} (h : x.Meets (ComesFrom (scaling .mul l r))) :
    x.Meets (ComesFrom (scaling .mul r l)) := by
  have hswap : ∀ a b : List Expr, a ++ b ⊆ b ++ a := fun a b _ hmem =>
    List.mem_append.mpr (List.mem_append.mp hmem).symm
  exact h.comesFrom_mono (hswap _ _) (hswap _ _)

theorem meets_scale_comesFrom (s : Scaling) (p : TermSum) {q : TermSum} (hr : r.reduce = .ok q) :
    (TermSum.scale s p q).Meets (ComesFrom (scaling s l r)) := by
  refine TermSum.meets_scale (P := ComesFrom (scaling s l r)) trivial ?_ p
  rintro rfl u hu hzero n
  exact ⟨r, List.mem_cons_self, .mk hr hu hzero⟩

/-- Arithmetic fails in a reduction only where a divisor or a power of the expression makes it. -/
theorem reduce_comesFrom (e : Expr) : e.reduce.Meets (ComesFrom e) := by
  induction e using (reduceInduction fun s l r =>
    (distribute s l r).Meets (ComesFrom (scaling s l r))) with
  | term t =>
    rw [reduce]
    exact meets_ok _
  | plus e ih =>
    rw [reduce]
    exact ih
  | minus e ih =>
    rw [reduce]
    exact ih.bind fun _ _ => meets_ok _
  | unknownSign =>
    rw [reduce]
    exact meets_error trivial
  | additive s l r ihl ihr =>
    rw [reduce]
    exact (ihl.comesFrom_left _).bind fun _ _ => (ihr.comesFrom_right _).bind fun _ _ => meets_ok _
  | mul l r ih =>
    rw [reduce]
    exact ih
  | div l r ih ihl ihr =>
    rw [reduce]
    apply ih.orIfNoRule
    refine (ihl.comesFrom_left (.scaling .div)).bind fun p _ =>
      (ihr.comesFrom_right (.scaling .div)).bind fun q _ => ?_
    split
    · exact meets_ok _
    · exact meets_error trivial
  | power l r ihr ihl =>
    rw [reduce]
    refine (ihr.comesFrom_right .power).bind fun p hp => ?_
    have hbase := ihl.comesFrom_left (r := r) .power
    split
    · split
      · exact meets_error trivial
      · split
        · next hn =>
          subst hn
          split
          · next hreduce =>
            split
            · next hzero => exact meets_error ⟨List.mem_cons_self, .mk hp hreduce hzero⟩
            · exact meets_ok _
          · exact meets_ok _
          · next obstacle _ hreduce => exact meets_error (hbase obstacle hreduce)
        · exact hbase.bind fun q _ => TermSum.meets_power trivial _ q
    · exact meets_error trivial
  | unknownOperator =>
    rw [reduce]
    exact meets_error trivial
  | terms s t u =>
    have hu : (Expr.term u).reduce = .ok (.term u) := by rw [reduce]
    rw [distribute]
    cases s with
    | mul => exact (Term.meets_mul trivial t u).bind fun _ _ => meets_ok _
    | div => exact meets_scale_comesFrom .div (.term t) hu
  | termMulSum t a x y ihx ihy =>
    simp only [distribute]
    -- The factor is put behind both sides of the sum.
    apply comesFrom_mul_comm
    refine (comesFrom_scaling .mul (fun _ => divisors_left) (fun _ => powers_left) ihx).bind
      fun _ _ => ?_
    exact
      (comesFrom_scaling .mul (fun _ => divisors_right) (fun _ => powers_right) ihy).bind fun _ _ =>
        meets_ok _
  | termDivSum t a x y ih =>
    simp only [distribute]
    refine (ih.comesFrom_right (.scaling .div)).bind fun q hq => ?_
    split
    · next u => exact meets_scale_comesFrom .div (.term t) hq
    · exact meets_error trivial
  | sumSigned s a x y op e ihl ihr =>
    simp only [distribute]
    exact (ihl.comesFrom_left (.scaling s)).bind fun p _ =>
      (ihr.comesFrom_right (.scaling s)).bind fun q hq => meets_scale_comesFrom s p hq
  | sum s a x y r hsign ihx ihy =>
    rw [distribute]
    · refine (comesFrom_scaling s (fun _ => divisors_left) (fun _ => powers_left) ihx).bind
        fun _ _ => ?_
      exact
        (comesFrom_scaling s (fun _ => divisors_right) (fun _ => powers_right) ihy).bind fun _ _ =>
          meets_ok _
    · exact hsign
  | operands s l r h₁ h₂ h₃ h₄ ihl ihr =>
    rw [distribute]
    · exact (ihl.comesFrom_left (.scaling s)).bind fun p _ =>
        (ihr.comesFrom_right (.scaling s)).bind fun q hq => meets_scale_comesFrom s p hq
    all_goals assumption

/-- A power that zero is raised to zero in stands in the expression, and both its base and its
exponent reduce to zero. -/
theorem zeroPower_of_reduce {e power : Expr} (h : e.reduce = .error (.zeroToZero power)) :
    power ∈ e.powers ∧ power.ZeroPower :=
  e.reduce_comesFrom _ h

end Expr

end LaurentCalc
