import LaurentCalc.Proofs.SortedEntries
import LaurentCalc.Proofs.Value
import Mathlib.Algebra.MonoidAlgebra.Basic

/-!
# Laurent polynomials

A sum of terms as a Laurent polynomial in named quantities, with integer
coefficients. The polynomial fixes which entries the canonical text shows and the
constant at its end, so sums of equal polynomials have the same text.
-/

namespace LaurentCalc

set_option autoImplicit false

noncomputable section

/-- Laurent polynomials in named quantities with integer coefficients. -/
abbrev Laurent : Type := AddMonoidAlgebra Int (String →₀ Int)

namespace Laurent

def quantity (x : String) : Laurentˣ :=
  Units.map (AddMonoidAlgebra.of Int (String →₀ Int))
    (toUnits (Multiplicative.ofAdd (Finsupp.single x 1)))

theorem coe_quantity_zpow (x : String) (e : Int) :
    ((quantity x ^ e : Laurentˣ) : Laurent) = .single (Finsupp.single x e) 1 := by
  rw [quantity, ← map_zpow, ← map_zpow, ← ofAdd_zsmul, Finsupp.smul_single_one]
  rfl

theorem coeff_intCast (v : Int) (m : String →₀ Int) :
    ((v : Int) : Laurent).coeff m = if m = 0 then v else 0 := by
  rw [AddMonoidAlgebra.intCast_def, AddMonoidAlgebra.coeff_single, Finsupp.single_apply]
  simp only [eq_comm, Int.cast_id]

end Laurent

namespace Term

open Laurent

theorem value_monomial (x : String) (c e : Int) :
    (monomial x c e).value quantity = .single (Finsupp.single x e) c := by
  rw [value, coe_quantity_zpow, AddMonoidAlgebra.intCast_def, AddMonoidAlgebra.single_mul_single,
    zero_add, mul_one, Int.cast_id]

end Term

namespace Entry

open Laurent

theorem coeff_toTerm (entry : Entry) (m : String →₀ Int) :
    (entry.toTerm.value quantity : Laurent).coeff m =
      if Finsupp.single entry.name entry.exponent = m then entry.coefficient else 0 := by
  rw [toTerm, Term.value_monomial, AddMonoidAlgebra.coeff_single, Finsupp.single_apply]

theorem coeff_totalValue_cons (entry : Entry) (rest : List Entry) (m : String →₀ Int) :
    (totalValue quantity (entry :: rest) : Laurent).coeff m =
      (if Finsupp.single entry.name entry.exponent = m then entry.coefficient else 0) +
        (totalValue quantity rest : Laurent).coeff m := by
  rw [totalValue_cons, AddMonoidAlgebra.coeff_add, Finsupp.add_apply, coeff_toTerm]

theorem single_eq_single {x y : String} {e f : Int} (he : e ≠ 0) :
    Finsupp.single y f = Finsupp.single x e ↔ y = x ∧ f = e := by
  rw [Finsupp.single_eq_single_iff]
  exact or_iff_left fun h => he h.2

/-- Only the entry with the given power can contribute to its coefficient. -/
theorem exists_mem_of_coeff_ne_zero {entries : List Entry} {x : String} {e : Int} (he : e ≠ 0)
    (h : (totalValue quantity entries : Laurent).coeff (Finsupp.single x e) ≠ 0) :
    ∃ entry ∈ entries, entry.name = x ∧ entry.exponent = e := by
  induction entries with
  | nil => exact absurd rfl h
  | cons entry rest ih =>
    by_cases hkey : entry.name = x ∧ entry.exponent = e
    · exact ⟨entry, List.mem_cons_self, hkey⟩
    · rw [coeff_totalValue_cons, if_neg (mt (single_eq_single he).mp hkey), zero_add] at h
      obtain ⟨a, ha, hkey'⟩ := ih h
      exact ⟨a, List.mem_cons_of_mem entry ha, hkey'⟩

theorem coeff_totalValue_of_mem {entries : List Entry} (hs : Sorted entries) {entry : Entry}
    (h : entry ∈ entries) (he : entry.exponent ≠ 0) :
    (totalValue quantity entries : Laurent).coeff (Finsupp.single entry.name entry.exponent) =
      entry.coefficient := by
  induction entries with
  | nil => cases h
  | cons first rest ih =>
    have hrest := (List.pairwise_cons.mp hs).2
    rw [coeff_totalValue_cons]
    rcases List.mem_cons.mp h with rfl | h'
    · have hnone : (totalValue quantity rest : Laurent).coeff
          (Finsupp.single entry.name entry.exponent) = 0 := by
        by_contra hne
        obtain ⟨a, ha, hname, hexp⟩ := exists_mem_of_coeff_ne_zero he hne
        have hbefore := (List.pairwise_cons.mp hs).1 a ha
        obtain rfl := hs.eq_of_key (List.mem_cons_of_mem entry ha) h hname hexp
        exact before_irrefl _ hbefore
      rw [if_pos rfl, hnone, add_zero]
    · rw [ih hrest h', if_neg, zero_add]
      intro hkey
      have hbefore := (List.pairwise_cons.mp hs).1 entry h'
      obtain ⟨hname, hexp⟩ := (single_eq_single he).mp hkey
      rw [before_iff, hname, hexp] at hbefore
      rcases hbefore with hlt | ⟨_, hlt⟩
      · exact lt_irrefl _ hlt
      · exact lt_irrefl _ hlt

theorem coeff_totalValue_zero (entries : List Entry) :
    (totalValue quantity entries : Laurent).coeff 0 =
      ((entries.filter (·.exponent = 0)).map (·.coefficient)).sum := by
  induction entries with
  | nil => rfl
  | cons entry rest ih =>
    rw [coeff_totalValue_cons, ih]
    by_cases hexp : entry.exponent = 0
    · rw [if_pos (by rw [hexp, Finsupp.single_zero]), List.filter_cons_of_pos (by simpa using hexp)]
      rfl
    · rw [if_neg (by rwa [Finsupp.single_eq_zero]), List.filter_cons_of_neg (by simpa using hexp),
        zero_add]

theorem totalValue_eq_shown_add (entries : List Entry) :
    (totalValue quantity entries : Laurent) =
      totalValue quantity (entries.filter fun entry => entry.exponent ≠ 0 ∧ entry.coefficient ≠ 0) +
        (((entries.filter (·.exponent = 0)).map (·.coefficient)).sum : Int) := by
  induction entries with
  | nil => simp
  | cons entry rest ih =>
    rw [totalValue_cons, ih]
    by_cases hexp : entry.exponent = 0
    · have hval : (entry.toTerm.value quantity : Laurent) = (entry.coefficient : Int) := by
        rw [toTerm, hexp, Term.value, zpow_zero, Units.val_one, mul_one]
      rw [List.filter_cons_of_neg (by simp [hexp]), List.filter_cons_of_pos (by simpa using hexp),
        hval, List.map_cons, List.sum_cons, Int.cast_add]
      ring
    · have hskip : (entry :: rest).filter (·.exponent = 0) = rest.filter (·.exponent = 0) :=
        List.filter_cons_of_neg (by simpa using hexp)
      rw [hskip]
      by_cases hcoeff : entry.coefficient = 0
      · have hval : (entry.toTerm.value quantity : Laurent) = 0 := Term.value_eq_zero hcoeff
        rw [hval, zero_add, List.filter_cons_of_neg (by simp [hcoeff])]
      · rw [List.filter_cons_of_pos (by simp [hexp, hcoeff]), totalValue_cons, add_assoc]

end Entry

namespace Collected

open Laurent

variable {c d : Collected}

theorem total_eq (c : Collected) :
    c.total =
      c.constant + ((c.entries.filter (·.exponent = 0)).map (·.coefficient)).sum := by
  rw [total, List.sum_eq_foldr]

theorem coeff_value_zero (c : Collected) : (c.value quantity : Laurent).coeff 0 = c.total := by
  rw [value, AddMonoidAlgebra.coeff_add, Finsupp.add_apply, coeff_intCast, if_pos rfl,
    Entry.coeff_totalValue_zero, total_eq]

theorem coeff_value_single (c : Collected) {x : String} {e : Int} (he : e ≠ 0) :
    (c.value quantity : Laurent).coeff (Finsupp.single x e) =
      (Entry.totalValue quantity c.entries : Laurent).coeff (Finsupp.single x e) := by
  rw [value, AddMonoidAlgebra.coeff_add, Finsupp.add_apply, coeff_intCast,
    if_neg (by rwa [Finsupp.single_eq_zero]), zero_add]

/-- The entries that the canonical text shows are the nonconstant terms of the polynomial. -/
theorem mem_shown_iff (hs : Entry.Sorted c.entries) {entry : Entry} :
    entry ∈ c.shown ↔ entry.exponent ≠ 0 ∧ entry.coefficient ≠ 0 ∧
      (c.value quantity : Laurent).coeff (Finsupp.single entry.name entry.exponent) =
        entry.coefficient := by
  simp only [shown, List.mem_filter, decide_eq_true_eq]
  constructor
  · rintro ⟨hmem, hexp, hcoeff⟩
    rw [coeff_value_single c hexp]
    exact ⟨hexp, hcoeff, Entry.coeff_totalValue_of_mem hs hmem hexp⟩
  · rintro ⟨hexp, hcoeff, hval⟩
    rw [coeff_value_single c hexp] at hval
    obtain ⟨a, ha, hname, hexp'⟩ := Entry.exists_mem_of_coeff_ne_zero hexp (hval ▸ hcoeff)
    have hval' := Entry.coeff_totalValue_of_mem hs ha (hexp' ▸ hexp)
    rw [hname, hexp', hval] at hval'
    have heq : entry = a := by
      cases entry
      cases a
      simp_all
    exact ⟨heq ▸ ha, hexp, hcoeff⟩

theorem sorted_shown (hs : Entry.Sorted c.entries) : Entry.Sorted c.shown :=
  hs.sublist List.filter_sublist

theorem shown_eq_of_value_eq (hc : Entry.Sorted c.entries) (hd : Entry.Sorted d.entries)
    (h : (c.value quantity : Laurent) = d.value quantity) : c.shown = d.shown := by
  apply (sorted_shown hc).eq_of_mem_iff (sorted_shown hd)
  intro a
  rw [mem_shown_iff hc, mem_shown_iff hd, h]

theorem text_eq_of_value_eq (hc : Entry.Sorted c.entries) (hd : Entry.Sorted d.entries)
    (h : (c.value quantity : Laurent) = d.value quantity) : c.text = d.text := by
  have htotal : c.total = d.total := by rw [← coeff_value_zero, h, coeff_value_zero]
  unfold text
  rw [shown_eq_of_value_eq hc hd h, htotal]

/-- The shown entries and the constant make up the whole polynomial. -/
theorem value_eq_shown_add_total (c : Collected) :
    (c.value quantity : Laurent) = Entry.totalValue quantity c.shown + (c.total : Int) := by
  rw [value, shown, total_eq, Int.cast_add, Entry.totalValue_eq_shown_add c.entries]
  ring

end Collected

namespace TermSum

def laurent (p : TermSum) : Laurent := p.value Laurent.quantity

theorem render_eq_of_laurent_eq {p q : TermSum} (h : p.laurent = q.laurent) :
    p.render = q.render := by
  apply Collected.text_eq_of_value_eq (Entry.sorted_collected p) (Entry.sorted_collected q)
  rw [value_collected, value_collected]
  exact h

end TermSum

end

end LaurentCalc
