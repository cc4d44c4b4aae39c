import LaurentCalc.Proofs.CanonicalPhrase
import LaurentCalc.Proofs.Interpretation
import LaurentCalc.Proofs.Obstacles

/-!
# The meaning of canonical phrases

A canonical phrase has the value of the powers and the constant that it shows. It has
no quotient, and reducing it meets no arithmetic obstacle; at worst there is no rule
for a negative exponent.
-/

namespace LaurentCalc

set_option autoImplicit false

section Value

universe u

variable {R : Type u} [CommRing R] {I : Interpretation R}

theorem Interpretation.value_ofInt (n : Int) : I.value (.ofInt n) = n := by
  unfold Expr.ofInt
  split
  · next hneg =>
    rw [value, value, Term.value, Int.ofNat_natAbs_of_nonpos (Int.le_of_lt hneg), Int.cast_neg,
      neg_neg]
  · next hnonneg =>
    rw [value, Term.value, Int.natAbs_of_nonneg (Int.not_lt.mp hnonneg)]

theorem Interpretation.value_plusSummands (e : Expr) (ss : List Summand) :
    I.value (e.plusSummands ss) =
      I.value e + (ss.map fun s => s.sign.combine 0 (I.value s.phrase)).sum := by
  induction ss generalizing e with
  | nil => exact (add_zero _).symm
  | cons s ss ih =>
    have hcombine : s.sign.combine (I.value e) (I.value s.phrase) =
        I.value e + s.sign.combine 0 (I.value s.phrase) := by
      cases s.sign with
      | plus => rw [Sign.combine, Sign.combine, zero_add]
      | minus => rw [Sign.combine, Sign.combine, zero_sub, sub_eq_add_neg]
    rw [Expr.plusSummands, List.foldl_cons, ← Expr.plusSummands, ih, value, hcombine, List.map_cons,
      List.sum_cons, add_assoc]

/-- The value of a number with its sign put in front of it again. -/
theorem Summand.combine_natAbs {s : Summand} {n : Int} (hs : s.negative = decide (n < 0)) (a : R) :
    s.sign.combine 0 ((n.natAbs : Int) * a) = n * a := by
  unfold Summand.sign
  by_cases hneg : n < 0
  · rw [hs, decide_eq_true hneg, if_pos rfl, Sign.combine,
      Int.ofNat_natAbs_of_nonpos (Int.le_of_lt hneg), Int.cast_neg, neg_mul, sub_neg_eq_add,
      zero_add]
  · rw [hs, decide_eq_false hneg, if_neg Bool.false_ne_true, Sign.combine,
      Int.natAbs_of_nonneg (Int.not_lt.mp hneg), zero_add]

theorem Collected.sum_constantSummands (constant : Int) :
    ((constantSummands constant).map fun s => s.sign.combine 0 (I.value s.phrase)).sum =
      (constant : R) := by
  unfold constantSummands
  split
  · next hzero => rw [hzero, Int.cast_zero, List.map_nil, List.sum_nil]
  · have hvalue := Summand.combine_natAbs (s := ⟨constant < 0, constant.natAbs.repr,
      .number constant.natAbs⟩) rfl (1 : R)
    rw [mul_one, mul_one] at hvalue
    rw [List.map_singleton, List.sum_singleton]
    exact hvalue

-- A power in the canonical text may have a negative exponent, which has to be read as an inverse.
variable (hraise : ∀ (a : Rˣ) (n : Int), I.raise a n = (a ^ n : Rˣ))
include hraise

namespace Entry

theorem value_powerPhrase (entry : Entry) :
    I.value entry.powerPhrase = (I.quantity entry.name ^ entry.exponent : Rˣ) := by
  have hnamed : I.value (.term (.named entry.name)) = I.quantity entry.name := by
    rw [Interpretation.value, Term.named, Term.value, Int.cast_one, one_mul, zpow_one]
  unfold powerPhrase
  split
  · next hone => rw [hnamed, hone, zpow_one]
  · rw [Interpretation.value, hnamed, Interpretation.value_ofInt, I.exponentOf_intCast, hraise]

theorem value_unsignedPhrase (entry : Entry) :
    I.value entry.unsignedPhrase =
      (entry.coefficient.natAbs : Int) * (I.quantity entry.name ^ entry.exponent : Rˣ) := by
  unfold unsignedPhrase
  split
  · next hone => rw [value_powerPhrase hraise, hone, Int.natCast_one, Int.cast_one, one_mul]
  · rw [Interpretation.value, value_powerPhrase hraise, Interpretation.value, Term.value]

theorem value_leadingPhrase (entry : Entry) :
    I.value entry.leadingPhrase = entry.toTerm.value I.quantity := by
  rw [toTerm, Term.value]
  unfold leadingPhrase
  split
  · next hone =>
    split
    · next hneg =>
      have hminus : entry.coefficient = -1 := by omega
      rw [Interpretation.value, value_powerPhrase hraise, hminus, Int.cast_neg, Int.cast_one,
        neg_one_mul]
    · next hnonneg =>
      have hplus : entry.coefficient = 1 := by omega
      rw [value_powerPhrase hraise, hplus, Int.cast_one, one_mul]
  · rw [Interpretation.value, value_powerPhrase hraise, Interpretation.value_ofInt]

theorem sum_summands (entries : List Entry) :
    ((entries.map summand).map fun s => s.sign.combine 0 (I.value s.phrase)).sum =
      totalValue I.quantity entries := by
  induction entries with
  | nil => rfl
  | cons entry rest ih =>
    rw [List.map_cons, List.map_cons, List.sum_cons, ih, totalValue_cons, toTerm, Term.value,
      ← Summand.combine_natAbs (s := entry.summand) rfl, ← value_unsignedPhrase hraise]
    rfl

end Entry

/-- The canonical phrase has the value of the shown entries and the constant. -/
theorem Collected.value_phrase (c : Collected) :
    I.value c.phrase = Entry.totalValue I.quantity c.shown + (c.total : Int) := by
  unfold phrase
  cases c.shown with
  | nil => rw [Interpretation.value_ofInt, Entry.totalValue_nil, zero_add]
  | cons first rest =>
    rw [Interpretation.value_plusSummands, Entry.value_leadingPhrase hraise, List.map_append,
      List.sum_append, Entry.sum_summands hraise, Collected.sum_constantSummands,
      Entry.totalValue_cons, add_assoc]

end Value

section Divisors

theorem Expr.divisors_ofInt (n : Int) : (ofInt n).divisors = [] := by
  unfold ofInt
  split <;> rfl

theorem Expr.divisors_plusSummands {e : Expr} {ss : List Summand} (he : e.divisors = [])
    (hss : ∀ s ∈ ss, s.phrase.divisors = []) : (e.plusSummands ss).divisors = [] := by
  induction ss generalizing e with
  | nil => exact he
  | cons s ss ih =>
    apply ih
    · change e.divisors ++ s.phrase.divisors = []
      rw [he, hss s List.mem_cons_self, List.append_nil]
    · exact fun s' hs' => hss s' (List.mem_cons_of_mem s hs')

namespace Entry

theorem divisors_powerPhrase (entry : Entry) : entry.powerPhrase.divisors = [] := by
  unfold powerPhrase
  split
  · rfl
  · change [] ++ (Expr.ofInt entry.exponent).divisors = []
    rw [Expr.divisors_ofInt, List.append_nil]

theorem divisors_unsignedPhrase (entry : Entry) : entry.unsignedPhrase.divisors = [] := by
  unfold unsignedPhrase
  split
  · exact entry.divisors_powerPhrase
  · exact Expr.divisors_mul_eq_nil rfl entry.divisors_powerPhrase

theorem divisors_leadingPhrase (entry : Entry) : entry.leadingPhrase.divisors = [] := by
  unfold leadingPhrase
  split
  · split
    · exact entry.divisors_powerPhrase
    · exact entry.divisors_powerPhrase
  · exact Expr.divisors_mul_eq_nil (Expr.divisors_ofInt _) entry.divisors_powerPhrase

end Entry

theorem Collected.divisors_phrase (c : Collected) : c.phrase.divisors = [] := by
  unfold phrase
  cases c.shown with
  | nil => exact Expr.divisors_ofInt c.total
  | cons first rest =>
    apply Expr.divisors_plusSummands first.divisors_leadingPhrase
    apply forall_mem_summands
    · intro entry _
      exact entry.divisors_unsignedPhrase
    · rfl

end Divisors

/-- No arithmetic obstacle is met; at worst no rule applies. -/
def Attempt.Gentle {α : Type} (x : Attempt α) : Prop := ∀ o, x = .error o → o = .noRule

namespace Attempt

variable {α β : Type}

theorem gentle_ok (a : α) : Gentle (.ok a) := meets_ok a

theorem gentle_noRule : Gentle (.error .noRule : Attempt α) := meets_error rfl

theorem Gentle.bind {x : Attempt α} {f : α → Attempt β} (hx : x.Gentle) (hf : ∀ a, (f a).Gentle) :
    Gentle (x >>= f) :=
  Meets.bind hx fun a _ => hf a

end Attempt

section Products

open Attempt

theorem TermSum.gentle_mul (p q : TermSum) : (p.mul q).Gentle :=
  meets_mul (P := (· = .noRule)) rfl p q

theorem Term.gentle_mul (t u : Term) : (t.mul u).Gentle :=
  meets_mul (P := (· = .noRule)) rfl t u

namespace Expr

theorem gentle_reduce_mul {l r : Expr} (hl : l.reduce.Gentle) (hr : r.reduce.Gentle)
    (hleft : ∀ a x y, l ≠ .additive a x y) (hright : ∀ a x y, r ≠ .additive a x y) :
    (scaling .mul l r).reduce.Gentle := by
  rw [reduce]
  unfold distribute
  split
  · next t u => exact (t.gentle_mul u).bind fun _ => gentle_ok _
  · exact absurd rfl (hright _ _ _)
  · exact absurd rfl (hleft _ _ _)
  · exact absurd rfl (hleft _ _ _)
  · exact hl.bind fun p => hr.bind fun q => p.gentle_mul q

theorem gentle_reduce_additive {s : Sign} {l r : Expr} (hl : l.reduce.Gentle)
    (hr : r.reduce.Gentle) : (additive s l r).reduce.Gentle := by
  rw [reduce]
  exact hl.bind fun p => hr.bind fun q => gentle_ok _

theorem gentle_reduce_minus {e : Expr} (h : e.reduce.Gentle) :
    (unary (.sign .minus) e).reduce.Gentle := by
  rw [reduce]
  exact h.bind fun p => gentle_ok _

theorem reduce_ofInt (n : Int) : (ofInt n).reduce = .ok (.number n) := by
  unfold ofInt
  split
  · next hneg =>
    rw [reduce, reduce, ok_bind, TermSum.negated, Term.neg,
      Int.ofNat_natAbs_of_nonpos (Int.le_of_lt hneg), Int.neg_neg]
    rfl
  · next hnonneg => rw [reduce, Int.natAbs_of_nonneg (Int.not_lt.mp hnonneg)]

theorem ofInt_ne_additive (n : Int) (a : Sign) (x y : Expr) : ofInt n ≠ .additive a x y := by
  unfold ofInt
  split <;> exact Expr.noConfusion

theorem gentle_reduce_plusSummands {e : Expr} {ss : List Summand} (he : e.reduce.Gentle)
    (hss : ∀ s ∈ ss, s.phrase.reduce.Gentle) : (e.plusSummands ss).reduce.Gentle := by
  induction ss generalizing e with
  | nil => exact he
  | cons s ss ih =>
    apply ih (gentle_reduce_additive he (hss s List.mem_cons_self))
    exact fun s' hs' => hss s' (List.mem_cons_of_mem s hs')

end Expr

namespace Entry

theorem gentle_reduce_powerPhrase {entry : Entry} (hexp : entry.exponent ≠ 0) :
    entry.powerPhrase.reduce.Gentle := by
  unfold powerPhrase
  split
  · rw [Expr.reduce]
    exact gentle_ok _
  · rw [Expr.reduce, Expr.reduce_ofInt, ok_bind]
    simp only [hexp, if_false]
    split
    · exact gentle_noRule
    · rw [Expr.reduce, ok_bind]
      exact gentle_ok _

theorem powerPhrase_ne_additive (entry : Entry) (a : Sign) (x y : Expr) :
    entry.powerPhrase ≠ .additive a x y := by
  unfold powerPhrase
  split <;> simp

theorem gentle_reduce_unsignedPhrase {entry : Entry} (hexp : entry.exponent ≠ 0) :
    entry.unsignedPhrase.reduce.Gentle := by
  unfold unsignedPhrase
  split
  · exact gentle_reduce_powerPhrase hexp
  · refine Expr.gentle_reduce_mul ?_ (gentle_reduce_powerPhrase hexp)
      (fun a x y => Expr.noConfusion) entry.powerPhrase_ne_additive
    rw [Expr.reduce]
    exact gentle_ok _

theorem gentle_reduce_leadingPhrase {entry : Entry} (hexp : entry.exponent ≠ 0) :
    entry.leadingPhrase.reduce.Gentle := by
  have hpower := gentle_reduce_powerPhrase hexp
  unfold leadingPhrase
  split
  · split
    · exact Expr.gentle_reduce_minus hpower
    · exact hpower
  · refine Expr.gentle_reduce_mul ?_ hpower (Expr.ofInt_ne_additive _) entry.powerPhrase_ne_additive
    rw [Expr.reduce_ofInt]
    exact gentle_ok _

end Entry

/-- The canonical phrase has neither a quotient nor an exponent zero. -/
theorem Collected.gentle_reduce_phrase (c : Collected) : c.phrase.reduce.Gentle := by
  have hshown : ∀ entry ∈ c.shown, entry.exponent ≠ 0 := by
    intro entry hentry
    have hkept := (List.mem_filter.mp hentry).2
    simp only [decide_eq_true_eq] at hkept
    exact hkept.1
  unfold phrase
  cases hc : c.shown with
  | nil =>
    simp only [Expr.reduce_ofInt]
    exact gentle_ok _
  | cons first rest =>
    rw [hc] at hshown
    apply Expr.gentle_reduce_plusSummands
    · exact Entry.gentle_reduce_leadingPhrase (hshown first List.mem_cons_self)
    · apply forall_mem_summands
      · intro entry hentry
        exact Entry.gentle_reduce_unsignedPhrase (hshown entry (List.mem_cons_of_mem first hentry))
      · rw [Expr.reduce]
        exact gentle_ok _

end Products

end LaurentCalc
