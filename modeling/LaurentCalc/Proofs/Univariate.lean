import LaurentCalc.Proofs.Obstacles
import LaurentCalc.Proofs.Polynomial

/-!
# Polynomials in one name

An expression over one name that has no quotient, and only numbers as exponents, never
lacks a rule and never divides by zero. It reduces to its polynomial, unless zero is
raised to the power zero in it.
-/

namespace LaurentCalc

set_option autoImplicit false

open Attempt

namespace Expr

/-- Sums, products and natural powers of numbers and of one name. -/
inductive Univariate (x : String) : Expr → Prop where
  | number (n : Int) : Univariate x (.number n)
  | monomial (c : Int) (k : Nat) : Univariate x (.term (.monomial x c k))
  | sign (s : Sign) {e : Expr} (h : Univariate x e) : Univariate x (.unary (.sign s) e)
  | additive (s : Sign) {l r : Expr} (hl : Univariate x l) (hr : Univariate x r) :
      Univariate x (.additive s l r)
  | mul {l r : Expr} (hl : Univariate x l) (hr : Univariate x r) :
      Univariate x (.scaling .mul l r)
  | power {base : Expr} (n : Nat) (h : Univariate x base) :
      Univariate x (.binary .power base (.number n))

namespace Univariate

variable {x : String} {e l r power : Expr}

theorem over_name (h : e.Univariate x) : e.Over (· = x) := by
  induction h with
  | number n => trivial
  | monomial c k => rfl
  | sign s h ih => exact ih
  | additive s hl hr ihl ihr => exact ⟨ihl, ihr⟩
  | mul hl hr ihl ihr => exact ⟨ihl, ihr⟩
  | power n h ih => exact ⟨ih, trivial⟩

theorem entire (h : e.Univariate x) : e.Entire := by
  induction h with
  | number n => trivial
  | monomial c k => exact Int.natCast_nonneg k
  | sign s h ih => exact ih
  | additive s hl hr ihl ihr => exact ⟨ihl, ihr⟩
  | mul hl hr ihl ihr => exact ⟨ihl, ihr⟩
  | power n h ih => exact ⟨ih, trivial⟩

theorem divisors_eq_nil (h : e.Univariate x) : e.divisors = [] := by
  induction h with
  | number n => rfl
  | monomial c k => rfl
  | sign s h ih => exact ih
  | @additive s l r hl hr ihl ihr =>
    change l.divisors ++ r.divisors = []
    rw [ihl, ihr, List.append_nil]
  | mul hl hr ihl ihr => exact divisors_mul_eq_nil ihl ihr
  | @power base n h ih =>
    change base.divisors ++ [] = []
    rw [ih, List.append_nil]

theorem of_mem_powers (h : e.Univariate x) (hpower : power ∈ e.powers) :
    ∃ base n, power = .binary .power base (.number (n : Nat)) ∧ base.Univariate x := by
  induction h with
  | number n => cases hpower
  | monomial c k => cases hpower
  | sign s h ih => exact ih hpower
  | additive s hl hr ihl ihr =>
    rcases List.mem_append.mp hpower with hpower | hpower
    · exact ihl hpower
    · exact ihr hpower
  | mul hl hr ihl ihr =>
    rcases List.mem_append.mp hpower with hpower | hpower
    · exact ihl hpower
    · exact ihr hpower
  | @power base n h ih =>
    rcases List.mem_cons.mp hpower with rfl | hpower
    · exact ⟨base, n, rfl, h⟩
    · rcases List.mem_append.mp hpower with hpower | hpower
      · exact ih hpower
      · cases hpower

theorem exists_mul {p q : TermSum} (hl : l.Univariate x) (hr : r.Univariate x)
    (hp : l.reduce = .ok p) (hq : r.reduce = .ok q) : ∃ m, p.mul q = .ok m :=
  TermSum.exists_mul (fun _ _ hy hz => hy.trans hz.symm) (over_reduce hl.over_name hp)
    (over_reduce hr.over_name hq)

/-- Nothing but zero to the power zero can get in the way. -/
theorem meets_reduce (h : e.Univariate x) :
    e.reduce.Meets fun o => ∃ power, o = .zeroToZero power := by
  -- Distributing a product takes its operands apart; what is reduced next is again over one name.
  induction e using (reduceInduction fun s l r => s = .mul →
    l.Univariate x → r.Univariate x →
      (distribute s l r).Meets fun o => ∃ power, o = .zeroToZero power) with
  | term t =>
    rw [reduce]
    exact meets_ok _
  | plus e ih =>
    cases h with | sign _ h =>
    rw [reduce]
    exact ih h
  | minus e ih =>
    cases h with | sign _ h =>
    rw [reduce]
    exact (ih h).bind fun _ _ => meets_ok _
  | unknownSign => cases h
  | additive s l r ihl ihr =>
    cases h with | additive _ hl hr =>
    rw [reduce]
    exact (ihl hl).bind fun _ _ => (ihr hr).bind fun _ _ => meets_ok _
  | mul l r ih =>
    cases h with | mul hl hr =>
    rw [reduce]
    exact ih rfl hl hr
  | div l r => cases h
  | power l r ihr ihl =>
    cases h with | power n h =>
    have hnonneg : ¬(n : Int) < 0 := Int.not_lt.mpr (Int.natCast_nonneg n)
    rw [reduce, reduce, ok_bind]
    simp only [hnonneg, if_false]
    split
    · split
      · split
        · exact meets_error ⟨_, rfl⟩
        · exact meets_ok _
      · exact meets_ok _
      · next obstacle _ hreduce => exact meets_error (ihl h obstacle hreduce)
    · refine (ihl h).bind fun p hp => meets_of_exists ?_
      exact TermSum.exists_power (fun _ _ hy hz => hy.trans hz.symm) _ (over_reduce h.over_name hp)
  | unknownOperator => cases h
  | terms s t u hs ht hu =>
    subst hs
    rw [distribute]
    obtain ⟨v, hv⟩ := Term.exists_mul (fun _ _ hy hz => hy.trans hz.symm) ht.over_name hu.over_name
    exact meets_of_exists ⟨.term v, by rw [Term.scale, hv, ok_bind]; rfl⟩
  | termMulSum t a y z ihy ihz hs ht hyz =>
    cases hyz with | additive _ hy hz =>
    simp only [distribute]
    exact (ihy (.mul hy ht)).bind fun _ _ => (ihz (.mul hz ht)).bind fun _ _ => meets_ok _
  | termDivSum t a y z ih hs => cases hs
  | sumSigned s a y z op e ihl ihr hs hl hr =>
    subst hs
    simp only [distribute]
    exact (ihl hl).bind fun p hp => (ihr hr).bind fun q hq =>
      meets_of_exists (hl.exists_mul hr hp hq)
  | sum s a y z r hsign ihy ihz hs hl hr =>
    subst hs
    cases hl with | additive _ hy hz =>
    rw [distribute]
    · exact (ihy (.mul hy hr)).bind fun _ _ => (ihz (.mul hz hr)).bind fun _ _ => meets_ok _
    · exact hsign
  | operands s l r h₁ h₂ h₃ h₄ ihl ihr hs hl hr =>
    subst hs
    rw [distribute]
    · exact (ihl hl).bind fun p hp =>
        (ihr hr).bind fun q hq => meets_of_exists (hl.exists_mul hr hp hq)
    all_goals assumption

theorem laurent_eq {p : TermSum} (h : e.Univariate x) (hp : e.reduce = .ok p) :
    p.laurent = Laurent.ofPolynomial e.polynomial :=
  TermSum.laurent_eq_of_entire h.entire h.divisors_eq_nil hp

theorem polynomial_eq_zero {p : TermSum} (h : e.Univariate x) (hp : e.reduce = .ok p)
    (hzero : p.isZeroTerm = true) : e.polynomial = 0 := by
  have hlaurent : p.laurent = 0 := by
    cases p with
    | term t => exact Term.value_eq_zero (of_decide_eq_true hzero)
    | join s l r => cases hzero
  rw [h.laurent_eq hp] at hlaurent
  exact Laurent.ofPolynomial_injective (hlaurent.trans (map_zero Laurent.ofPolynomial).symm)

/-- An expression over one name reduces to a sum of the same polynomial, unless some base under the
exponent zero stands for the zero polynomial and is blamed. -/
theorem reduce_eq_ok_or_zeroToZero (h : e.Univariate x) :
    (∃ p, e.reduce = .ok p ∧ p.laurent = Laurent.ofPolynomial e.polynomial) ∨
      ∃ base, .binary .power base (.number 0) ∈ e.powers ∧ base.polynomial = 0 ∧
        e.reduce = .error (.zeroToZero (.binary .power base (.number 0))) := by
  cases hreduce : e.reduce with
  | ok p => exact Or.inl ⟨p, rfl, h.laurent_eq hreduce⟩
  | error obstacle =>
    right
    obtain ⟨power, rfl⟩ := h.meets_reduce obstacle hreduce
    obtain ⟨hpower, hzeroPower⟩ := zeroPower_of_reduce hreduce
    obtain ⟨base, n, rfl, hunivariate⟩ := h.of_mem_powers hpower
    obtain ⟨hexponent, hbase, hzero⟩ := hzeroPower
    rw [reduce] at hexponent
    have hn : (n : Int) = 0 := by simpa using hexponent
    rw [hn] at hpower ⊢
    exact ⟨base, hpower, hunivariate.polynomial_eq_zero hbase hzero, rfl⟩

/-- The expression `(x + 1) * (x - x)^n`: zero is raised to the power zero in it if `n` is zero. -/
def vanishing (n : Int) : Expr :=
  .scaling .mul (.additive .plus (.term (.named "x")) (.number 1))
    (.binary .power (.additive .minus (.term (.named "x")) (.term (.named "x"))) (.number n))

theorem reduce_vanishing :
    (∃ base, .binary .power base (.number 0) ∈ (vanishing 0).powers ∧ base.polynomial = 0 ∧
      (vanishing 0).reduce = .error (.zeroToZero (.binary .power base (.number 0)))) ∧
    ∃ p, (vanishing 2).reduce = .ok p ∧
      p.laurent = Laurent.ofPolynomial (vanishing 2).polynomial := by
  have hname : Univariate "x" (.term (.named "x")) := .monomial 1 1
  have hvanishing : ∀ n : Nat, (vanishing n).Univariate "x" := fun n =>
    .mul (.additive .plus hname (.number 1)) (.power n (.additive .minus hname hname))
  have herror : (vanishing 0).reduce = .error (.zeroToZero (.binary .power
      (.additive .minus (.term (.named "x")) (.term (.named "x"))) (.number 0))) := by cbv
  have hok : ∃ p, (vanishing 2).reduce = .ok p := ⟨_, by cbv⟩
  constructor
  · rcases (hvanishing 0).reduce_eq_ok_or_zeroToZero with ⟨p, hp, -⟩ | hblamed
    · have hp : (vanishing 0).reduce = .ok p := hp
      rw [herror] at hp
      cases hp
    · exact hblamed
  · rcases (hvanishing 2).reduce_eq_ok_or_zeroToZero with hreduced | ⟨base, -, -, hbase⟩
    · exact hreduced
    · obtain ⟨p, hp⟩ := hok
      have hbase : (vanishing 2).reduce = .error _ := hbase
      rw [hp] at hbase
      cases hbase

end Univariate

end Expr

end LaurentCalc
