import LaurentCalc.Proofs.Obstacles
import LaurentCalc.Proofs.Tallies

/-!
# Origins of arithmetic failures

However an expression is taken apart while it is reduced, and whatever is tried on the way and
given up, arithmetic fails only for a reason that stands in the expression: a quotient whose
divisor cancels once its terms are collected, or a power of which both base and exponent reduce
to zero.
-/

namespace LaurentCalc

set_option autoImplicit false

namespace Expr

/-- The subtrees of an expression, itself first. -/
def subtrees : Expr → List Expr
  | .term t => [.term t]
  | .unary op e => .unary op e :: e.subtrees
  | .binary op l r => .binary op l r :: (l.subtrees ++ r.subtrees)

theorem self_mem_subtrees (e : Expr) : e ∈ e.subtrees := by cases e <;> exact List.mem_cons_self

theorem subtrees_left {e l r : Expr} (op : BinaryOp) (h : e ∈ l.subtrees) :
    e ∈ (binary op l r).subtrees :=
  List.mem_cons_of_mem _ (List.mem_append_left _ h)

theorem subtrees_right {e l r : Expr} (op : BinaryOp) (h : e ∈ r.subtrees) :
    e ∈ (binary op l r).subtrees :=
  List.mem_cons_of_mem _ (List.mem_append_right _ h)

/-- The divisors of an expression are the right operands of the quotients in it. -/
theorem exists_quotient_of_mem_divisors {e divisor : Expr} (h : divisor ∈ e.divisors) :
    ∃ dividend, scaling .div dividend divisor ∈ e.subtrees := by
  induction e with
  | term t => cases h
  | unary op e ih =>
    obtain ⟨dividend, hmem⟩ := ih h
    exact ⟨dividend, List.mem_cons_of_mem _ hmem⟩
  | binary op l r ihl ihr =>
    have hcases : op = .scaling .div ∧ divisor = r ∨ divisor ∈ l.divisors ++ r.divisors := by
      unfold divisors at h
      split at h <;> simp_all
    rcases hcases with ⟨rfl, rfl⟩ | hmem
    · exact ⟨l, self_mem_subtrees _⟩
    · rcases List.mem_append.mp hmem with hl | hr
      · obtain ⟨dividend, hmem⟩ := ihl hl
        exact ⟨dividend, subtrees_left op hmem⟩
      · obtain ⟨dividend, hmem⟩ := ihr hr
        exact ⟨dividend, subtrees_right op hmem⟩

theorem mem_subtrees_of_mem_powers {e power : Expr} (h : power ∈ e.powers) :
    power ∈ e.subtrees := by
  induction e with
  | term t => cases h
  | unary op e ih => exact List.mem_cons_of_mem _ (ih h)
  | binary op l r ihl ihr =>
    have hcases : power = binary op l r ∨ power ∈ l.powers ++ r.powers := by
      unfold powers at h
      split at h <;> simp_all
    rcases hcases with rfl | hmem
    · exact self_mem_subtrees _
    · rcases List.mem_append.mp hmem with hl | hr
      · exact subtrees_left op (ihl hl)
      · exact subtrees_right op (ihr hr)

theorem ZeroDivisor.exists_vanishes {divisor : Expr} (h : divisor.ZeroDivisor) :
    ∃ q, divisor.reduce = .ok q ∧ q.collected.Vanishes := by
  obtain ⟨hdivisor, hunited, hzero⟩ := h
  exact ⟨_, hdivisor, TermSum.vanishes_of_united hunited hzero⟩

theorem ZeroPower.exists_operands {power : Expr} (h : power.ZeroPower) :
    ∃ base exponent t, power = .binary .power base exponent ∧
      exponent.reduce = .ok (.number 0) ∧ base.reduce = .ok (.term t) ∧ t.weight = 0 := by
  obtain @⟨base, exponent, p, hexponent, hbase, hzero⟩ := h
  cases p with
  | term t => exact ⟨base, exponent, t, rfl, hexponent, hbase, of_decide_eq_true hzero⟩
  | join s l r => cases hzero

/-- A division by zero comes from a quotient in the expression whose divisor reduces to terms that
cancel once they are collected. Zero is raised to the power zero in a subtree of the expression: a
power whose exponent reduces to the number zero, and whose base to the number zero or to a power of
a name with the coefficient zero. -/
theorem reduce_fails_for_cause (e : Expr) :
    (∀ n, e.reduce = .error (.divisionByZero n) →
      ∃ dividend divisor q, scaling .div dividend divisor ∈ e.subtrees ∧
        divisor.reduce = .ok q ∧ q.collected.Vanishes) ∧
    (∀ power, e.reduce = .error (.zeroToZero power) →
      ∃ base exponent t, power = .binary .power base exponent ∧ power ∈ e.subtrees ∧
        exponent.reduce = .ok (.number 0) ∧ base.reduce = .ok (.term t) ∧ t.weight = 0) := by
  constructor
  · intro n h
    obtain ⟨divisor, hmem, hzero⟩ := e.reduce_comesFrom _ h
    obtain ⟨dividend, hquotient⟩ := exists_quotient_of_mem_divisors hmem
    obtain ⟨q, hq, hvanishes⟩ := hzero.exists_vanishes
    exact ⟨dividend, divisor, q, hquotient, hq, hvanishes⟩
  · intro power h
    obtain ⟨hmem, hzero⟩ := e.reduce_comesFrom _ h
    obtain ⟨base, exponent, t, hpower, hexponent, hbase, hweight⟩ := hzero.exists_operands
    exact ⟨base, exponent, t, hpower, mem_subtrees_of_mem_powers hmem, hexponent, hbase, hweight⟩

set_option maxRecDepth 20000 in
/-- A divisor whose terms stay apart though they cancel, and a base that is a name with the
coefficient zero. -/
theorem reduce_fails_for_cause_uncollected :
    (∃ dividend divisor q, scaling .div dividend divisor ∈
        (scaling .div (additive .plus (.term (.named "x")) (number 1))
          (scaling .mul (number 1) (additive .minus (number 3) (number 3)))).subtrees ∧
      divisor.reduce = .ok q ∧ q.collected.Vanishes) ∧
    (∃ base exponent t, binary .power base exponent ∈
        (scaling .mul (number 2)
          (binary .power (additive .minus (.term (.named "x")) (.term (.named "x")))
            (additive .minus (number 2) (number 2)))).subtrees ∧
      exponent.reduce = .ok (.number 0) ∧ base.reduce = .ok (.term t) ∧ t.weight = 0) := by
  constructor
  · have hreduce : (scaling .div (additive .plus (.term (.named "x")) (number 1))
        (scaling .mul (number 1) (additive .minus (number 3) (number 3)))).reduce =
          .error (.divisionByZero 1) := by cbv
    exact (reduce_fails_for_cause _).1 1 hreduce
  · have hreduce : (scaling .mul (number 2)
        (binary .power (additive .minus (.term (.named "x")) (.term (.named "x")))
          (additive .minus (number 2) (number 2)))).reduce =
        .error (.zeroToZero (binary .power
          (additive .minus (.term (.named "x")) (.term (.named "x")))
          (additive .minus (number 2) (number 2)))) := by cbv
    obtain ⟨base, exponent, t, hpower, hmem, hcause⟩ := (reduce_fails_for_cause _).2 _ hreduce
    exact ⟨base, exponent, t, hpower ▸ hmem, hcause⟩

end Expr

end LaurentCalc
