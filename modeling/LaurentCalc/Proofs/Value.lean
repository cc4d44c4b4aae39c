import LaurentCalc.Proofs.Attempt
import LaurentCalc.Reduction
import Mathlib.Algebra.BigOperators.Group.List.Basic
import Mathlib.Algebra.Ring.Int.Units
import Mathlib.Data.Int.Cast.Lemmas
import Mathlib.Tactic.Ring

/-!
# Sums of terms in a commutative ring

Once every name stands for a unit of a commutative ring, a term has a value and so
has a sum of terms. All operations on sums except the quotient respect the values,
whatever the ring; the quotient does so where the coefficients divide exactly.
-/

namespace LaurentCalc

set_option autoImplicit false

universe u

variable {R : Type u} [CommRing R]

def Sign.combine : Sign → R → R → R
  | .plus, a, b => a + b
  | .minus, a, b => a - b

theorem Sign.combine_mul (s : Sign) (a b c : R) :
    s.combine a b * c = s.combine (a * c) (b * c) := by
  cases s
  · exact add_mul a b c
  · exact sub_mul a b c

theorem Sign.neg_combine (s : Sign) (a b : R) : -s.combine a b = s.combine (-a) (-b) := by
  cases s <;> simp only [Sign.combine] <;> ring

@[simp] theorem Sign.cast_apply (s : Sign) (a b : Int) :
    ((s.apply a b : Int) : R) = s.combine (a : R) (b : R) := by
  cases s <;> simp [Sign.apply, Sign.combine]

theorem raise_eq_pow (base : Int) (n : Nat) : raise base n = base ^ n := by
  fun_induction raise base n with
  | case1 base => simp
  | case2 base n hn half he ih =>
    rw [show half = _ from ih, mul_pow, ← pow_add]
    exact congrArg (base ^ ·) (by omega)
  | case3 base n hn half ho ih =>
    rw [show half = _ from ih, mul_pow, ← pow_add, ← pow_succ]
    exact congrArg (base ^ ·) (by omega)

namespace Term

def value (ρ : String → Rˣ) : Term → R
  | .number v => v
  | .monomial x c e => c * (ρ x ^ e : Rˣ)

variable {ρ : String → Rˣ} {t u v : Term}

@[simp] theorem value_neg (t : Term) : t.neg.value ρ = -t.value ρ := by
  cases t <;> simp [neg, value]

theorem value_mul (h : t.mul u = .ok v) : v.value ρ = t.value ρ * u.value ρ := by
  cases t with
  | number a =>
    cases u with
    | number b =>
      obtain rfl := Except.ok.inj h
      simp [value]
    | monomial y d f =>
      obtain rfl := Except.ok.inj h
      simp only [value, Int.cast_mul]
      ring
  | monomial x c e =>
    cases u with
    | number b =>
      obtain rfl := Except.ok.inj h
      simp only [value, Int.cast_mul]
      ring
    | monomial y d f =>
      simp only [mul] at h
      split at h
      · next hxy =>
        subst y
        obtain rfl := Except.ok.inj h
        simp only [value, Int.cast_mul, zpow_add, Units.val_mul]
        ring
      · cases h

@[simp] theorem value_power (n : Nat) (t : Term) : (t.power n).value ρ = t.value ρ ^ n := by
  cases t with
  | number a => simp [power, value, raise_eq_pow]
  | monomial x c e =>
    simp only [power, value, raise_eq_pow, Int.cast_pow, mul_pow, zpow_mul, zpow_natCast,
      Units.val_pow_eq_pow_val]

theorem value_unite? {s : Sign} (h : t.unite? s u = some v) :
    v.value ρ = s.combine (t.value ρ) (u.value ρ) := by
  cases unites_of_unite? h with
  | numbers a b => simp [value]
  | multiples x c d e => simp only [value, Sign.cast_apply, Sign.combine_mul]

theorem value_eq_zero (h : t.weight = 0) : t.value ρ = 0 := by
  cases t <;> simp_all [weight, value]

end Term

namespace Entry

variable (ρ : String → Rˣ)

def totalValue (entries : List Entry) : R := (entries.map fun entry => entry.toTerm.value ρ).sum

@[simp] theorem totalValue_nil : totalValue ρ [] = 0 := rfl

@[simp] theorem totalValue_cons (entry : Entry) (rest : List Entry) :
    totalValue ρ (entry :: rest) = entry.toTerm.value ρ + totalValue ρ rest := rfl

theorem totalValue_insert (x : String) (e k : Int) (entries : List Entry) :
    totalValue ρ (insert x e k entries) = (Term.monomial x k e).value ρ + totalValue ρ entries := by
  induction entries with
  | nil => rfl
  | cons entry rest ih =>
    simp only [insert]
    split
    · next hkey =>
      simp only [totalValue_cons, toTerm, Term.value, hkey.1, hkey.2, Int.cast_add]
      ring
    · split
      · rfl
      · simp only [totalValue_cons, ih]
        ring

theorem totalValue_filter (entries : List Entry) :
    totalValue ρ (entries.filter (·.coefficient ≠ 0)) = totalValue ρ entries := by
  induction entries with
  | nil => rfl
  | cons entry rest ih =>
    by_cases hzero : entry.coefficient = 0
    · have hval : entry.toTerm.value ρ = 0 := Term.value_eq_zero hzero
      simp_all
    · simp_all

end Entry

def Collected.value (ρ : String → Rˣ) (c : Collected) : R :=
  c.constant + Entry.totalValue ρ c.entries

namespace Collected

variable (ρ : String → Rˣ)

@[simp] theorem value_add (c : Collected) (t : Term) :
    (c.add t).value ρ = c.value ρ + t.value ρ := by
  cases t with
  | number v =>
    simp only [add, value, Term.value, Int.cast_add]
    ring
  | monomial x k e =>
    simp only [add, value, Entry.totalValue_insert]
    ring

theorem value_foldl_add (ts : List Term) (c : Collected) :
    (ts.foldl add c).value ρ = c.value ρ + (ts.map (Term.value ρ)).sum := by
  induction ts generalizing c with
  | nil => simp
  | cons t ts ih => rw [List.foldl_cons, ih, value_add, List.map_cons, List.sum_cons, add_assoc]

theorem value_ofTerms (ts : List Term) : (ofTerms ts).value ρ = (ts.map (Term.value ρ)).sum := by
  rw [ofTerms, value_foldl_add, value, empty, Int.cast_zero, Entry.totalValue_nil, add_zero,
    zero_add]

theorem value_remaining (c : Collected) : (c.remaining.map (Term.value ρ)).sum = c.value ρ := by
  have hpowers : (((c.entries.filter (·.coefficient ≠ 0)).map Entry.toTerm).map
      (Term.value ρ)).sum = Entry.totalValue ρ c.entries := by
    rw [List.map_map]
    exact Entry.totalValue_filter ρ c.entries
  simp only [remaining]
  split
  · simp only [List.map_append, List.sum_append, hpowers, List.map_cons, List.map_nil,
      List.sum_singleton, value, Term.value]
    ring
  · next hconst =>
    have hzero : c.constant = 0 := by
      by_contra hne
      exact hconst (Or.inl hne)
    rw [hpowers, value, hzero, Int.cast_zero, zero_add]

end Collected

namespace TermSum

section Addition

variable {A : Type u} [AddCommGroup A] {f : Term → A}

theorem sum_map_terms_minus (hneg : ∀ t : Term, f t.neg = -f t) (l r : TermSum) :
    ((join .minus l r).terms.map f).sum = (l.terms.map f).sum - (r.terms.map f).sum := by
  have hcomp : f ∘ Term.neg = Neg.neg ∘ f := funext hneg
  rw [terms, List.map_append, List.sum_append, List.map_map, hcomp, ← List.map_map, ← List.sum_neg,
    sub_eq_add_neg]

/-- What changes its sign with a term adds up over the terms of a sum as the sum is joined. -/
theorem sum_map_terms {g : TermSum → A} (hneg : ∀ t : Term, f t.neg = -f t)
    (hterm : ∀ t, g (.term t) = f t) (hplus : ∀ l r, g (.join .plus l r) = g l + g r)
    (hminus : ∀ l r, g (.join .minus l r) = g l - g r) (p : TermSum) :
    (p.terms.map f).sum = g p := by
  induction p with
  | term t => rw [terms, List.map_singleton, List.sum_singleton, hterm]
  | join s l r ihl ihr =>
    cases s with
    | plus => rw [terms, List.map_append, List.sum_append, ihl, ihr, hplus]
    | minus => rw [sum_map_terms_minus hneg, ihl, ihr, hminus]

end Addition

def value (ρ : String → Rˣ) : TermSum → R
  | .term t => t.value ρ
  | .join s l r => s.combine (l.value ρ) (r.value ρ)

variable {ρ : String → Rˣ} {p q r : TermSum}

theorem value_unite (s : Sign) (p q : TermSum) :
    (unite s p q).value ρ = s.combine (p.value ρ) (q.value ρ) := by
  unfold unite
  split
  · split
    · next hunite => exact Term.value_unite? hunite
    · rfl
  · rfl

@[simp] theorem value_united (p : TermSum) : p.united.value ρ = p.value ρ := by
  induction p with
  | term t => rfl
  | join s l r ihl ihr => rw [united, value_unite, ihl, ihr, value]

@[simp] theorem value_neg (p : TermSum) : p.neg.value ρ = -p.value ρ := by
  induction p with
  | term t => exact Term.value_neg t
  | join s l r ihl ihr => rw [neg, value, ihl, ihr, value, Sign.neg_combine]

@[simp] theorem value_negated (p : TermSum) : p.negated.value ρ = -p.value ρ := by
  cases p with
  | term t => exact Term.value_neg t
  | join s l r => simp only [negated, value, value_neg, value_united, Sign.neg_combine]

theorem value_mapTerms {f : Term → Attempt Term} {a : R}
    (hf : ∀ t v, f t = .ok v → v.value ρ = t.value ρ * a) (h : p.mapTerms f = .ok q) :
    q.value ρ = p.value ρ * a := by
  induction p generalizing q with
  | term t =>
    obtain ⟨v, hv, hq⟩ := bind_eq_ok_iff.mp h
    obtain rfl := Except.ok.inj hq
    exact hf t v hv
  | join s l r ihl ihr =>
    obtain ⟨l', hl, h⟩ := bind_eq_ok_iff.mp h
    obtain ⟨r', hr, hq⟩ := bind_eq_ok_iff.mp h
    obtain rfl := Except.ok.inj hq
    rw [value, ihl hl, ihr hr, value, Sign.combine_mul]

theorem value_mul (h : p.mul q = .ok r) : r.value ρ = p.value ρ * q.value ρ := by
  induction p generalizing r with
  | term t =>
    rw [mul_comm]
    exact value_mapTerms (fun _ _ hv => Term.value_mul hv) h
  | join s l r ihl ihr =>
    obtain ⟨l', hl, h⟩ := bind_eq_ok_iff.mp h
    obtain ⟨r', hr, hr'⟩ := bind_eq_ok_iff.mp h
    obtain rfl := Except.ok.inj hr'
    rw [value, ihl hl, ihr hr, value, Sign.combine_mul]

theorem sum_map_value_terms (p : TermSum) : (p.terms.map (Term.value ρ)).sum = p.value ρ :=
  sum_map_terms Term.value_neg (fun _ => rfl) (fun _ _ => rfl) (fun _ _ => rfl) p

@[simp] theorem value_collected (p : TermSum) : p.collected.value ρ = p.value ρ := by
  rw [collected, Collected.value_ofTerms, sum_map_value_terms]

theorem value_plusTerms (first : TermSum) (ts : List Term) :
    (plusTerms first ts).value ρ = first.value ρ + (ts.map (Term.value ρ)).sum := by
  induction ts generalizing first with
  | nil => simp [plusTerms]
  | cons t ts ih =>
    simp only [plusTerms, List.foldl_cons] at ih ⊢
    rw [ih, value, Sign.combine, value, List.map_cons, List.sum_cons, add_assoc]

theorem value_ofTerms (ts : List Term) :
    (ofTerms ts).value ρ = (ts.map (Term.value ρ)).sum := by
  cases ts with
  | nil => simp [ofTerms, value, Term.value]
  | cons t ts => rw [ofTerms, value_plusTerms, value, List.map_cons, List.sum_cons]

@[simp] theorem value_collect (p : TermSum) : p.collect.value ρ = p.value ρ := by
  rw [collect, value_ofTerms, Collected.value_remaining, value_collected]

theorem value_mulRepeatedly {factor : TermSum} {n : Nat} (h : mulRepeatedly factor n p = .ok q) :
    q.value ρ = p.value ρ * factor.value ρ ^ n := by
  induction n generalizing p with
  | zero =>
    obtain rfl := Except.ok.inj h
    simp
  | succ n ih =>
    obtain ⟨next, hnext, h⟩ := bind_eq_ok_iff.mp h
    rw [ih h, value_collect, value_mul hnext, pow_succ']
    ring

theorem value_power {n : Nat} (hn : 0 < n) (h : p.power n = .ok q) :
    q.value ρ = p.value ρ ^ n := by
  cases p with
  | term t =>
    obtain rfl := Except.ok.inj h
    exact Term.value_power n t
  | join s l r =>
    rw [value_mulRepeatedly h, ← pow_succ', Nat.sub_add_cancel hn]

end TermSum

end LaurentCalc
