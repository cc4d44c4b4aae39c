import LaurentCalc.Proofs.Divisions
import LaurentCalc.Proofs.Value

/-!
# Reduction keeps the value

An interpretation reads expressions in a commutative ring. Whatever it makes of
quotients and powers, reduction keeps the value of an expression as long as every
division is exact and every divisor stands for a unit.
-/

namespace LaurentCalc

set_option autoImplicit false

universe u

/-- How names, quotients and powers are read in a commutative ring. Only the quotients by units and
the powers with natural exponents are prescribed; an exponent counts by the integer that its value
stands for. -/
structure Interpretation (R : Type u) [CommRing R] where
  quantity : String → Rˣ
  divide : R → R → R
  exponentOf : R → Int
  raise : R → Int → R
  divide_mul : ∀ (a : R) (b : Rˣ), divide (a * b) b = a
  exponentOf_intCast : ∀ n : Int, exponentOf n = n
  raise_natCast : ∀ (a : R) (n : Nat), raise a n = a ^ n

namespace Interpretation

variable {R : Type u} [CommRing R] (I : Interpretation R)

/-- The value of an expression. Unknown operators have no meaning and count as zero. -/
def value : Expr → R
  | .term t => t.value I.quantity
  | .unary (.sign .plus) e => value e
  | .unary (.sign .minus) e => -value e
  | .unary (.unknown _) _ => 0
  | .binary (.additive s) l r => s.combine (value l) (value r)
  | .binary (.scaling .mul) l r => value l * value r
  | .binary (.scaling .div) l r => I.divide (value l) (value r)
  | .binary .power l r => I.raise (value l) (I.exponentOf (value r))
  | .binary (.unknown _) _ _ => 0

/-- Every divisor in the expression stands for a unit. -/
def Admits (e : Expr) : Prop := ∀ d ∈ e.divisors, IsUnit (I.value d)

@[simp] theorem value_toExpr (p : TermSum) : I.value p.toExpr = p.value I.quantity := by
  induction p with
  | term t => rfl
  | join s l r ihl ihr => rw [TermSum.toExpr, value, ihl, ihr, TermSum.value]

variable {I}

theorem Admits.left {op : BinaryOp} {l r : Expr} (h : I.Admits (.binary op l r)) : I.Admits l :=
  fun d hd => h d (Expr.divisors_left hd)

theorem Admits.right {op : BinaryOp} {l r : Expr} (h : I.Admits (.binary op l r)) : I.Admits r :=
  fun d hd => h d (Expr.divisors_right hd)

theorem Admits.divisor {l r : Expr} (h : I.Admits (.scaling .div l r)) : IsUnit (I.value r) :=
  h r List.mem_cons_self

theorem Admits.of_divisors_eq_nil {e : Expr} (h : e.divisors = []) : I.Admits e := by
  intro d hd
  rw [h] at hd
  exact absurd hd List.not_mem_nil

/-- A side of a sum may take the place of the sum before it is scaled. -/
theorem Admits.scaling {s : Scaling} {l l' r : Expr} (h : I.Admits (.scaling s l r))
    (hl : I.Admits l') : I.Admits (.scaling s l' r) := by
  intro d hd
  cases s with
  | mul =>
    rcases List.mem_append.mp hd with hd | hd
    · exact hl d hd
    · exact h.right d hd
  | div =>
    rcases List.mem_cons.mp hd with rfl | hd
    · exact h.divisor
    · rcases List.mem_append.mp hd with hd | hd
      · exact hl d hd
      · exact h.right d hd

theorem divide_eq_iff {a b c : R} (hb : IsUnit b) : I.divide a b = c ↔ a = c * b := by
  obtain ⟨w, rfl⟩ := hb
  constructor
  · rintro rfl
    have h := I.divide_mul (a * ↑w⁻¹) w
    rw [Units.inv_mul_cancel_right] at h
    rw [h, Units.inv_mul_cancel_right]
  · rintro rfl
    exact I.divide_mul c w

end Interpretation

section Quotients

variable {R : Type u} [CommRing R] {ρ : String → Rˣ}

theorem quotientRecorded_mul {n d m : Int} (h : (quotientRecorded n d).Yields m) : m * d = n := by
  obtain ⟨hm, hexact⟩ := h
  have hdvd : d ∣ n := hexact ⟨n, d⟩ List.mem_cons_self
  simp only [quotientRecorded, quotient] at hm
  split at hm
  · cases hm
  · obtain rfl := Except.ok.inj hm
    exact Int.tdiv_mul_cancel hdvd

theorem Recorded.yields_mapOutcome_map {α β : Type} {f : α → β} {x : Recorded α} {b : β}
    (h : (x.mapOutcome (Except.map f)).Yields b) : ∃ a, x.Yields a ∧ f a = b := by
  obtain ⟨hb, hexact⟩ := h
  obtain ⟨a, ha, rfl⟩ := map_eq_ok_iff.mp hb
  exact ⟨a, ⟨ha, hexact⟩, rfl⟩

theorem Term.value_divRecorded {t u v : Term} (h : (t.divRecorded u).Yields v) :
    v.value ρ * u.value ρ = t.value ρ := by
  cases t with
  | number a =>
    cases u with
    | number b =>
      obtain ⟨m, hm, rfl⟩ := Recorded.yields_mapOutcome_map h
      rw [value, value, value, ← Int.cast_mul, quotientRecorded_mul hm]
    | monomial y d f =>
      obtain ⟨m, hm, rfl⟩ := Recorded.yields_mapOutcome_map h
      simp only [value, ← quotientRecorded_mul hm, Int.cast_mul, zpow_neg]
      rw [mul_mul_mul_comm, Units.inv_mul, mul_one]
  | monomial x c e =>
    cases u with
    | number b =>
      obtain ⟨m, hm, rfl⟩ := Recorded.yields_mapOutcome_map h
      simp only [value, ← quotientRecorded_mul hm, Int.cast_mul]
      ring
    | monomial y d f =>
      simp only [divRecorded] at h
      split at h
      · next hxy =>
        subst y
        obtain ⟨m, hm, rfl⟩ := Recorded.yields_mapOutcome_map h
        simp only [value, ← quotientRecorded_mul hm, Int.cast_mul]
        rw [mul_mul_mul_comm, ← Units.val_mul, ← zpow_add, sub_add_cancel]
      · cases h.1

theorem TermSum.value_divTermRecorded {t : Term} {q r : TermSum}
    (h : (divTermRecorded t q).Yields r) : r.value ρ * q.value ρ = t.value ρ := by
  unfold divTermRecorded at h
  split at h
  · next u hu =>
    obtain ⟨v, hv, hr⟩ := Recorded.yields_bind_iff.mp h
    obtain rfl := Recorded.yields_pure_iff.mp hr
    rw [← value_united q, hu]
    exact Term.value_divRecorded hv
  · cases h.1

theorem TermSum.value_divRecorded {p q r : TermSum} (h : (p.divRecorded q).Yields r) :
    r.value ρ * q.value ρ = p.value ρ := by
  induction p generalizing r with
  | term t => exact value_divTermRecorded h
  | join s l r' ihl ihr =>
    rcases h.of_orIfNoRule with h | h
    · obtain ⟨l', hl, h⟩ := Recorded.yields_bind_iff.mp h
      obtain ⟨r'', hr, h⟩ := Recorded.yields_bind_iff.mp h
      obtain rfl := Recorded.yields_pure_iff.mp h
      rw [value, Sign.combine_mul, ihl hl, ihr hr, value]
    · have hsame := Recorded.yields_undivided_iff.mp h
      split at hsame
      · next heq =>
        obtain rfl := Except.ok.inj hsame
        rw [← value_united (join s l r'), heq, value_united]
        simp [value, Term.value]
      · cases hsame

end Quotients

namespace Interpretation

variable {R : Type u} [CommRing R] {I : Interpretation R} {p q r : TermSum}

theorem value_scaleRecorded {s : Scaling} {l r : Expr} (hd : I.Admits (.scaling s l r))
    (hp : p.value I.quantity = I.value l) (hq : q.value I.quantity = I.value r)
    {m : TermSum} (h : (TermSum.scaleRecorded s p q).Yields m) :
    m.value I.quantity = I.value (.scaling s l r) := by
  cases s with
  | mul => rw [value, ← hp, ← hq, TermSum.value_mul (Recorded.yields_undivided_iff.mp h)]
  | div =>
    symm
    rw [value, divide_eq_iff hd.divisor, ← hp, ← hq]
    exact (TermSum.value_divRecorded h).symm

/-- A quotient of equal sums is one, since the divisor is a unit. -/
theorem value_sameOperands {l r : Expr} (hd : I.Admits (.scaling .div l r))
    (hp : p.value I.quantity = I.value l) (hq : q.value I.quantity = I.value r) {m : TermSum}
    (h : (if p = q then .ok (.number 1) else .error .noRule : Attempt TermSum) = .ok m) :
    m.value I.quantity = I.value (.scaling .div l r) := by
  split at h
  · next heq =>
    obtain rfl := Except.ok.inj h
    symm
    rw [value, divide_eq_iff hd.divisor, ← hp, ← hq, heq]
    simp [TermSum.value, Term.value]
  · cases h

theorem value_combine_scaling {s : Scaling} {a : Sign} {x y r : Expr}
    (hd : I.Admits (.scaling s (.additive a x y) r)) :
    a.combine (I.value (.scaling s x r)) (I.value (.scaling s y r)) =
      I.value (.scaling s (.additive a x y) r) := by
  cases s with
  | mul => simp only [value, Sign.combine_mul]
  | div =>
    symm
    simp only [value]
    rw [divide_eq_iff hd.divisor, Sign.combine_mul, ← (divide_eq_iff hd.divisor).mp rfl,
      ← (divide_eq_iff hd.divisor).mp rfl]

theorem eq_one_of_zeroPower {power : Expr} {x : Attempt TermSum} {m : TermSum}
    (h : Expr.zeroPower power x = .ok m) : m = .number 1 := by
  unfold Expr.zeroPower at h
  split at h
  · split at h
    · cases h
    · exact (Except.ok.inj h).symm
  · exact (Except.ok.inj h).symm
  · cases h

variable (I) in
/-- Reducing the expression keeps its value. -/
def KeepsValue (e : Expr) : Prop :=
  ∀ p, e.reduceRecorded.Yields p → I.Admits e → p.value I.quantity = I.value e

variable (I) in
/-- Distribution keeps the value of the product or quotient that it stands for. -/
def KeepsScaled (s : Scaling) (l r : Expr) : Prop :=
  ∀ p, (Expr.distributeRecorded s l r).Yields p → I.Admits (.scaling s l r) →
    p.value I.quantity = I.value (.scaling s l r)

theorem keepsValue_div {l r : Expr} (hdistribute : I.KeepsScaled .div l r)
    (hl : I.KeepsValue l) (hr : I.KeepsValue r) : I.KeepsValue (.scaling .div l r) := by
  intro p h hd
  rw [Expr.reduceRecorded] at h
  rcases h.of_orIfNoRule with h | h
  · exact hdistribute p h hd
  · obtain ⟨q, hq, h⟩ := Recorded.yields_bind_iff.mp h
    obtain ⟨q', hq', h⟩ := Recorded.yields_bind_iff.mp h
    exact value_sameOperands hd (hl q hq hd.left) (hr q' hq' hd.right)
      (Recorded.yields_undivided_iff.mp h)

theorem keepsValue_power {l r : Expr} (hl : I.KeepsValue l) (hr : I.KeepsValue r) :
    I.KeepsValue (.binary .power l r) := by
  intro p h hd
  rw [Expr.reduceRecorded] at h
  obtain ⟨q, hq, h⟩ := Recorded.yields_bind_iff.mp h
  have hexp := hr q hq hd.right
  split at h
  · next n =>
    rw [value, ← hexp, TermSum.value, Term.value, I.exponentOf_intCast]
    split at h
    · cases h.1
    · split at h
      · next hn =>
        rw [eq_one_of_zeroPower h.1, hn, ← Int.natCast_zero, I.raise_natCast, pow_zero]
        simp [TermSum.value, Term.value]
      · next hneg hzero =>
        obtain ⟨b, hb, h⟩ := Recorded.yields_bind_iff.mp h
        have hpos : 0 < n.toNat := by omega
        rw [TermSum.value_power hpos (Recorded.yields_undivided_iff.mp h), hl b hb hd.left,
          ← I.raise_natCast, Int.toNat_of_nonneg (Int.not_lt.mp hneg)]
  · cases h.1

theorem keepsScaled_terms (s : Scaling) (t u : Term) : I.KeepsScaled s (.term t) (.term u) := by
  intro p h hd
  cases s with
  | mul =>
    simp only [Expr.distributeRecorded] at h
    obtain ⟨v, hv, h⟩ := bind_eq_ok_iff.mp (Recorded.yields_undivided_iff.mp h)
    rw [← Except.ok.inj h]
    exact Term.value_mul hv
  | div =>
    simp only [Expr.distributeRecorded] at h
    obtain ⟨v, hv, h⟩ := Recorded.yields_bind_iff.mp h
    symm
    rw [← Recorded.yields_pure_iff.mp h, value, divide_eq_iff hd.divisor]
    exact (Term.value_divRecorded hv).symm

theorem keepsScaled_term_mul_additive {t : Term} {a : Sign} {x y : Expr}
    (hx : I.KeepsValue (.scaling .mul x (.term t)))
    (hy : I.KeepsValue (.scaling .mul y (.term t))) :
    I.KeepsScaled .mul (.term t) (.additive a x y) := by
  intro p h hd
  simp only [Expr.distributeRecorded] at h
  obtain ⟨q, hq, h⟩ := Recorded.yields_bind_iff.mp h
  obtain ⟨q', hq', h⟩ := Recorded.yields_bind_iff.mp h
  -- The operands are swapped, so the factor stands on the right of both sides.
  have hswap : I.Admits (.scaling .mul (.additive a x y) (.term t)) := by
    intro d hd'
    exact hd d (by simpa [Expr.divisors] using hd')
  rw [← Recorded.yields_pure_iff.mp h, TermSum.value, hx q hq (hswap.scaling hswap.left.left),
    hy q' hq' (hswap.scaling hswap.left.right), value_combine_scaling hswap]
  exact mul_comm _ _

theorem keepsScaled_term_div_additive (t : Term) {a : Sign} {x y : Expr}
    (hsum : I.KeepsValue (.additive a x y)) :
    I.KeepsScaled .div (.term t) (.additive a x y) := by
  intro p h hd
  simp only [Expr.distributeRecorded] at h
  obtain ⟨q, hq, h⟩ := Recorded.yields_bind_iff.mp h
  split at h
  · next u =>
    obtain ⟨v, hv, h⟩ := Recorded.yields_bind_iff.mp h
    symm
    rw [← Recorded.yields_pure_iff.mp h, value, divide_eq_iff hd.divisor,
      ← hsum (.term u) hq hd.right]
    exact (Term.value_divRecorded hv).symm
  · cases h.1

theorem keepsScaled_additive {s : Scaling} {a : Sign} {x y r : Expr}
    (hsign : ∀ op e, r = .unary op e → False)
    (hx : I.KeepsValue (.scaling s x r)) (hy : I.KeepsValue (.scaling s y r)) :
    I.KeepsScaled s (.additive a x y) r := by
  intro p h hd
  rw [Expr.distributeRecorded] at h
  · obtain ⟨q, hq, h⟩ := Recorded.yields_bind_iff.mp h
    obtain ⟨q', hq', h⟩ := Recorded.yields_bind_iff.mp h
    rw [← Recorded.yields_pure_iff.mp h, TermSum.value, hx q hq (hd.scaling hd.left.left),
      hy q' hq' (hd.scaling hd.left.right), value_combine_scaling hd]
  · exact hsign

theorem keepsScaled_reduced {s : Scaling} {l r : Expr}
    (hdistribute : Expr.distributeRecorded s l r =
      do TermSum.scaleRecorded s (← l.reduceRecorded) (← r.reduceRecorded))
    (hl : I.KeepsValue l) (hr : I.KeepsValue r) : I.KeepsScaled s l r := by
  intro p h hd
  rw [hdistribute] at h
  obtain ⟨q, hq, h⟩ := Recorded.yields_bind_iff.mp h
  obtain ⟨q', hq', h⟩ := Recorded.yields_bind_iff.mp h
  exact value_scaleRecorded hd (hl q hq hd.left) (hr q' hq' hd.right) h

variable (I) in
theorem keepsValue (e : Expr) : I.KeepsValue e := by
  -- Distribution reduces expressions that are no parts of `e`, so the induction follows the calls.
  induction e using Expr.reduceInduction I.KeepsScaled with
  | term t =>
    intro p h _
    rw [Expr.reduceRecorded] at h
    rw [← Recorded.yields_pure_iff.mp h]
    rfl
  | plus e ih =>
    intro p h hd
    rw [Expr.reduceRecorded] at h
    exact ih p h hd
  | minus e ih =>
    intro p h hd
    rw [Expr.reduceRecorded] at h
    obtain ⟨q, hq, h⟩ := Recorded.yields_bind_iff.mp h
    rw [← Recorded.yields_pure_iff.mp h, TermSum.value_negated, ih q hq hd, value]
  | unknownSign =>
    intro p h _
    rw [Expr.reduceRecorded] at h
    cases h.1
  | additive s l r ihl ihr =>
    intro p h hd
    rw [Expr.reduceRecorded] at h
    obtain ⟨q, hq, h⟩ := Recorded.yields_bind_iff.mp h
    obtain ⟨q', hq', h⟩ := Recorded.yields_bind_iff.mp h
    rw [← Recorded.yields_pure_iff.mp h, TermSum.value_unite, ihl q hq hd.left,
      ihr q' hq' hd.right, value]
  | mul l r ih =>
    intro p h hd
    rw [Expr.reduceRecorded] at h
    exact ih p h hd
  | div l r ih ihl ihr => exact keepsValue_div ih ihl ihr
  | power l r ihr ihl => exact keepsValue_power ihl ihr
  | unknownOperator =>
    intro p h _
    rw [Expr.reduceRecorded] at h
    cases h.1
  | terms s t u => exact keepsScaled_terms s t u
  | termMulSum t a x y ihx ihy => exact keepsScaled_term_mul_additive ihx ihy
  | termDivSum t a x y ih => exact keepsScaled_term_div_additive t ih
  | sumSigned s a x y op e ihl ihr =>
    exact keepsScaled_reduced (by simp only [Expr.distributeRecorded]) ihl ihr
  | sum s a x y r hsign ihx ihy => exact keepsScaled_additive hsign ihx ihy
  | operands s l r h₁ h₂ h₃ h₄ ihl ihr =>
    refine keepsScaled_reduced ?_ ihl ihr
    rw [Expr.distributeRecorded]
    all_goals assumption

theorem value_reduceRecorded {e : Expr} (h : e.reduceRecorded.Yields p) (hd : I.Admits e) :
    p.value I.quantity = I.value e :=
  I.keepsValue e p h hd

end Interpretation

end LaurentCalc
