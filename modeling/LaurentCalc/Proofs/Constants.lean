import LaurentCalc.Proofs.Names
import LaurentCalc.Proofs.Value

/-!
# Constant sums

Sums of numbers only. They add, multiply and raise to powers like the integers that
they come to; a quotient divides the numbers one by one and truncates each time. The
canonical text of such a sum is its integer.
-/

namespace LaurentCalc

set_option autoImplicit false

namespace TermSum

def Constant (p : TermSum) : Prop := p.Over fun _ => False

/-- The integer that a constant sum comes to; elsewhere every quantity counts as one. -/
def constantValue (p : TermSum) : Int := p.value fun _ => (1 : Intˣ)

/-- The numbers that a constant sum adds up, each with the sign under which it counts. -/
def numbers (p : TermSum) : List Int := p.terms.map Term.weight

variable {p q r : TermSum}

theorem constant_number (n : Int) : (number n).Constant := trivial

theorem constantValue_join (s : Sign) (l r : TermSum) :
    (join s l r).constantValue = s.apply l.constantValue r.constantValue := by
  cases s <;> rfl

theorem constantValue_unite (s : Sign) (p q : TermSum) :
    (unite s p q).constantValue = s.apply p.constantValue q.constantValue := by
  rw [constantValue, value_unite]
  cases s <;> rfl

theorem Constant.eq_number {t : Term} (h : (term t).Constant) : ∃ n, t = .number n := by
  cases t with
  | number n => exact ⟨n, rfl⟩
  | monomial x c e => exact absurd h id

/-- Uniting leaves nothing of a constant sum but its integer. -/
theorem Constant.united_eq (h : p.Constant) : p.united = .number p.constantValue := by
  induction p with
  | term t =>
    obtain ⟨n, rfl⟩ := h.eq_number
    rfl
  | join s l r ihl ihr =>
    rw [united, ihl h.1, ihr h.2, constantValue_join]
    rfl

end TermSum

theorem Term.div_number {v d : Int} (hd : d ≠ 0) :
    (Term.number v).div (.number d) = .ok (.number (v.tdiv d)) := by
  rw [div, quotient, if_neg hd]
  rfl

/-- The attempt comes out as a constant sum of the given integer. -/
def Attempt.Gives (x : Attempt TermSum) (n : Int) : Prop :=
  ∃ p, x = .ok p ∧ p.Constant ∧ p.constantValue = n

namespace TermSum

variable {p q : TermSum}

theorem Constant.gives_mul (hp : p.Constant) (hq : q.Constant) :
    (p.mul q).Gives (p.constantValue * q.constantValue) := by
  obtain ⟨r, hr⟩ := exists_mul (fun _ _ hx _ => absurd hx id) hp hq
  exact ⟨r, hr, over_mul hp hq hr, value_mul hr⟩

theorem Constant.gives_power {n : Nat} (hn : 0 < n) (hp : p.Constant) :
    (p.power n).Gives (p.constantValue ^ n) := by
  obtain ⟨q, hq⟩ := exists_power (fun _ _ hx _ => absurd hx id) n hp
  exact ⟨q, hq, over_power hp hq, value_power hn hq⟩

theorem sum_tdiv_numbers_join (s : Sign) (l r : TermSum) (d : Int) :
    ((join s l r).numbers.map (·.tdiv d)).sum =
      s.apply (l.numbers.map (·.tdiv d)).sum (r.numbers.map (·.tdiv d)).sum := by
  have hneg : ∀ t : Term, t.neg.weight.tdiv d = -t.weight.tdiv d := by
    intro t
    rw [Term.weight_neg, Int.neg_tdiv]
  simp only [numbers, List.map_map]
  cases s with
  | plus => rw [terms, List.map_append, List.sum_append, Sign.apply]
  | minus => exact sum_map_terms_minus hneg l r

/-- A constant sum is divided number by number, each quotient truncated. -/
theorem Constant.gives_div (hp : p.Constant) (hq : q.Constant) (hzero : q.constantValue ≠ 0) :
    (p.div q).Gives ((p.numbers.map (·.tdiv q.constantValue)).sum) := by
  induction p with
  | term t =>
    obtain ⟨v, rfl⟩ := hp.eq_number
    refine ⟨.number (v.tdiv q.constantValue), ?_, constant_number _, ?_⟩
    · rw [div, divTerm, hq.united_eq]
      simp only [Term.div_number hzero, ok_bind, pure_eq_ok]
    · exact (Int.add_zero _).symm
  | join s l r ihl ihr =>
    obtain ⟨l', hl, hconstantLeft, hvalueLeft⟩ := ihl hp.1
    obtain ⟨r', hr, hconstantRight, hvalueRight⟩ := ihr hp.2
    refine ⟨.join s l' r', ?_, ⟨hconstantLeft, hconstantRight⟩, ?_⟩
    · rw [div, hl, hr, ok_bind, ok_bind, pure_eq_ok, Attempt.ok_orIfNoRule]
    · rw [constantValue_join, hvalueLeft, hvalueRight, sum_tdiv_numbers_join]

theorem Constant.collected_eq (h : p.Constant) : p.collected = ⟨p.constantValue, []⟩ := by
  have hentries : p.collected.entries = [] :=
    List.eq_nil_iff_forall_not_mem.mpr fun entry hentry => name_of_mem_collected h entry hentry
  have hconstant : p.collected.constant = p.constantValue := by
    rw [constantValue, ← value_collected, Collected.value, hentries, Entry.totalValue_nil, add_zero,
      Int.cast_id]
  rw [← hconstant, ← hentries]

/-- Collecting leaves nothing of a constant sum but its integer, either. -/
theorem Constant.collect_eq (h : p.Constant) : p.collect = .number p.constantValue := by
  rw [collect, h.collected_eq, Collected.remaining]
  simp [ofTerms, plusTerms]

/-- The canonical text of a constant sum is its integer. -/
theorem Constant.render_eq (h : p.Constant) : p.render = p.constantValue.repr := by
  have htotal : p.constantValue + 0 = p.constantValue := Int.add_zero _
  rw [render, h.collected_eq]
  exact congrArg Int.repr htotal

end TermSum

end LaurentCalc
