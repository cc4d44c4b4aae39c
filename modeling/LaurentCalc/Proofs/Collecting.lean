import LaurentCalc.Proofs.Laurent
import LaurentCalc.Proofs.RewrittenSums
import LaurentCalc.Proofs.Tallies

/-!
# Collecting like terms

Collecting brings a sum into a normal form: one power for each name and exponent, in the
order in which results are written, and a number behind them. The tallies of a sum decide
what its normal form is, so it does not matter how the sum was nested, in which order its
terms stood and which of them were subtracted.
-/

namespace LaurentCalc

set_option autoImplicit false

/-- Terms in normal form: powers in the order of their keys, no two of them with the same key and
none with the coefficient zero, and behind them at most one number, which is zero only where it
stands alone. -/
inductive Term.Normal : List Term → Prop where
  | powers {entries : List Entry} (hsorted : Entry.Sorted entries)
      (hnonzero : ∀ entry ∈ entries, entry.coefficient ≠ 0) (hne : entries ≠ []) :
      Normal (entries.map Entry.toTerm)
  | constant {entries : List Entry} {v : Int} (hsorted : Entry.Sorted entries)
      (hnonzero : ∀ entry ∈ entries, entry.coefficient ≠ 0) (hv : v = 0 → entries = []) :
      Normal (entries.map Entry.toTerm ++ [.number v])

variable {mark : Option (String × Int)}

namespace Collected

variable {c : Collected}

theorem remaining_ne_nil (c : Collected) : c.remaining ≠ [] := by
  rw [remaining]
  split
  · exact List.append_ne_nil_of_right_ne_nil _ (List.cons_ne_nil _ _)
  · next hdrop => exact fun hnil => hdrop (Or.inr hnil)

theorem sorted_nonzero (hs : Entry.Sorted c.entries) :
    Entry.Sorted (c.entries.filter (·.coefficient ≠ 0)) :=
  hs.sublist List.filter_sublist

theorem normal_remaining (hs : Entry.Sorted c.entries) : Term.Normal c.remaining := by
  have hnonzero : ∀ entry ∈ c.entries.filter (·.coefficient ≠ 0), entry.coefficient ≠ 0 := by
    intro entry hentry
    simpa using (List.mem_filter.mp hentry).2
  rw [remaining]
  split
  · next hkeep =>
    apply Term.Normal.constant (sorted_nonzero hs) hnonzero
    intro hv
    exact List.map_eq_nil_iff.mp (hkeep.resolve_left fun hne => hne hv)
  · next hdrop =>
    apply Term.Normal.powers (sorted_nonzero hs) hnonzero
    exact fun hnil => hdrop (Or.inr (List.map_eq_nil_iff.mpr hnil))

/-- A power with the coefficient zero adds nothing to any tally. -/
theorem sum_map_tally_powers (entries : List Entry) :
    ((((entries.filter (·.coefficient ≠ 0)).map Entry.toTerm).map (Term.tally mark)).sum) =
      (Collected.mk 0 entries).tally mark := by
  induction entries with
  | nil => cases mark <;> rfl
  | cons entry rest ih =>
    have hcons : (Collected.mk 0 (entry :: rest)).tally mark =
        entry.toTerm.tally mark + (Collected.mk 0 rest).tally mark := by
      cases mark with
      | none => rfl
      | some key =>
        simp only [Collected.tally, Entry.tally, Entry.toTerm, Term.tally, Term.mark, Term.weight,
          Option.some.injEq, Prod.ext_iff]
    rw [hcons, ← ih]
    by_cases hzero : entry.coefficient = 0
    · have hterm : entry.toTerm.tally mark = 0 := by
        rw [Term.tally, Entry.toTerm, Term.weight, hzero, ite_self]
      rw [List.filter_cons_of_neg (by simpa using hzero), hterm, Int.zero_add]
    · rw [List.filter_cons_of_pos (by simpa using hzero), List.map_cons, List.map_cons,
        List.sum_cons]

theorem sum_map_tally_remaining (c : Collected) :
    (c.remaining.map (Term.tally mark)).sum = c.tally mark := by
  have htally : c.tally mark =
      (Collected.mk 0 c.entries).tally mark + (Term.number c.constant).tally mark := by
    cases mark with
    | none => exact (Int.zero_add _).symm
    | some key => exact (Int.add_zero _).symm
  rw [htally, ← sum_map_tally_powers, remaining]
  split
  · rw [List.map_append, List.sum_append, List.map_singleton, List.sum_singleton]
  · next hdrop =>
    have hzero : c.constant = 0 := by
      by_contra hne
      exact hdrop (Or.inl hne)
    rw [Term.tally, Term.weight, hzero, ite_self, Int.add_zero]

end Collected

namespace TermSum

variable {p q : TermSum}

theorem terms_plusTerms (first : TermSum) (ts : List Term) :
    (plusTerms first ts).terms = first.terms ++ ts := by
  induction ts generalizing first with
  | nil => exact (List.append_nil _).symm
  | cons t ts ih =>
    rw [plusTerms, List.foldl_cons]
    exact (ih _).trans (List.append_assoc _ _ _)

theorem terms_ofTerms {ts : List Term} (h : ts ≠ []) : (ofTerms ts).terms = ts := by
  cases ts with
  | nil => exact absurd rfl h
  | cons t ts => exact terms_plusTerms (.term t) ts

theorem terms_collect (p : TermSum) : p.collect.terms = p.collected.remaining :=
  terms_ofTerms p.collected.remaining_ne_nil

/-- Collecting changes no tally. -/
theorem tally_collect (p : TermSum) : p.collect.tally mark = p.tally mark := by
  rw [← sum_map_tally_terms, terms_collect, Collected.sum_map_tally_remaining, tally_collected]

/-- The powers that remain are those whose tally is not zero, with the tally as coefficient. -/
theorem mem_nonzero_collected_iff {entry : Entry} :
    entry ∈ p.collected.entries.filter (·.coefficient ≠ 0) ↔
      entry.coefficient ≠ 0 ∧ p.tally (some (entry.name, entry.exponent)) = entry.coefficient := by
  rw [List.mem_filter, decide_eq_true_eq]
  constructor
  · rintro ⟨hmem, hne⟩
    exact ⟨hne, (coefficient_collected hmem).symm⟩
  · rintro ⟨hne, htally⟩
    have hfound : ∃ found ∈ p.collected.entries,
        found.name = entry.name ∧ found.exponent = entry.exponent := by
      by_contra hnone
      apply hne
      rw [← htally, ← tally_collected]
      exact Entry.tally_eq_zero fun found hfound hkey => hnone ⟨found, hfound, hkey⟩
    obtain ⟨found, hmem, hname, hexponent⟩ := hfound
    have hcoefficient := coefficient_collected hmem
    rw [hname, hexponent, htally] at hcoefficient
    obtain rfl : found = entry := by
      cases found
      cases entry
      simp_all
    exact ⟨hmem, hne⟩

/-- Sums come to the same normal form exactly if all their tallies are the same. -/
theorem collect_eq_iff : p.collect = q.collect ↔ ∀ mark, p.tally mark = q.tally mark := by
  constructor
  · intro h mark
    rw [← tally_collect p, h, tally_collect]
  · intro h
    have hconstant : p.collected.constant = q.collected.constant := by
      have hnone := h none
      rwa [← tally_collected p, ← tally_collected q] at hnone
    have hpowers : p.collected.entries.filter (·.coefficient ≠ 0) =
        q.collected.entries.filter (·.coefficient ≠ 0) := by
      apply (Collected.sorted_nonzero (Entry.sorted_collected p)).eq_of_mem_iff
        (Collected.sorted_nonzero (Entry.sorted_collected q))
      intro entry
      rw [mem_nonzero_collected_iff, mem_nonzero_collected_iff, h]
    rw [collect, collect, Collected.remaining, Collected.remaining, hpowers, hconstant]

theorem collect_collect (p : TermSum) : p.collect.collect = p.collect :=
  collect_eq_iff.mpr fun _ => tally_collect p

theorem render_collect (p : TermSum) : p.collect.render = p.render :=
  render_eq_of_laurent_eq (value_collect p)

end TermSum

namespace Expr

theorem exists_toExpr_of_isFlat {e : Expr} (h : e.isFlat = true) : ∃ p : TermSum, p.toExpr = e := by
  induction e with
  | term t => exact ⟨.term t, rfl⟩
  | unary op e => cases h
  | binary op l r ihl ihr =>
    cases op with
    | additive s =>
      rw [isFlat, Bool.and_eq_true] at h
      obtain ⟨p, rfl⟩ := ihl h.1
      obtain ⟨q, rfl⟩ := ihr h.2
      exact ⟨.join s p q, rfl⟩
    | scaling s => cases h
    | power => cases h
    | unknown symbol => cases h

/-- Collecting a flat tree gives a flat tree with the same canonical text and with its terms in
normal form, which collecting does not change any more. Two flat trees become the same tree exactly
if their coefficients for each name and exponent, and their constants, add up to the same. -/
theorem collect_normal_form {e e' : Expr} (he : e.isFlat = true) (he' : e'.isFlat = true) :
    ∃ p q : TermSum, e.toSum = .ok p ∧ e'.toSum = .ok q ∧
      e.collect.isFlat = true ∧ e.collect.toSum = .ok p.collect ∧
      p.collect.render = p.render ∧ Term.Normal p.collect.terms ∧
      e.collect.collect = e.collect ∧
      (e.collect = e'.collect ↔ ∀ mark, p.tally mark = q.tally mark) := by
  obtain ⟨p, rfl⟩ := exists_toExpr_of_isFlat he
  obtain ⟨q, rfl⟩ := exists_toExpr_of_isFlat he'
  refine ⟨p, q, toSum_toExpr p, toSum_toExpr q, ?_, ?_, p.render_collect, ?_, ?_, ?_⟩
  · rw [TermSum.collect_toExpr, isFlat_toExpr]
  · rw [TermSum.collect_toExpr, toSum_toExpr]
  · rw [TermSum.terms_collect]
    exact Collected.normal_remaining (Entry.sorted_collected p)
  · rw [TermSum.collect_toExpr, TermSum.collect_toExpr, TermSum.collect_collect]
  · rw [TermSum.collect_toExpr, TermSum.collect_toExpr, ← TermSum.collect_eq_iff]
    exact ⟨TermSum.toExpr_injective, congrArg TermSum.toExpr⟩

/-- A power with exponent zero is kept apart from the constant, and a power that cancels is dropped.
-/
theorem collect_normal_form_cancelled :
    (additive .plus (additive .minus (additive .minus (.term (.monomial "x" 2 0))
      (additive .minus (number 3) (.term (.named "x")))) (.term (.named "y")))
        (.term (.named "y"))).isFlat = true ∧
    (additive .plus (.term (.named "x"))
      (additive .minus (.term (.monomial "x" 2 0)) (number 3))).isFlat = true ∧
    (additive .plus (additive .minus (additive .minus (.term (.monomial "x" 2 0))
      (additive .minus (number 3) (.term (.named "x")))) (.term (.named "y")))
        (.term (.named "y"))).collect =
      (additive .plus (.term (.named "x"))
        (additive .minus (.term (.monomial "x" 2 0)) (number 3))).collect := by
  refine ⟨rfl, rfl, ?_⟩
  obtain ⟨p, q, hp, hq, -, -, -, -, -, hiff⟩ := @collect_normal_form
    (additive .plus (additive .minus (additive .minus (.term (.monomial "x" 2 0))
      (additive .minus (number 3) (.term (.named "x")))) (.term (.named "y"))) (.term (.named "y")))
    (additive .plus (.term (.named "x"))
      (additive .minus (.term (.monomial "x" 2 0)) (number 3))) rfl rfl
  cases hp
  cases hq
  apply hiff.mpr
  intro mark
  simp only [TermSum.tally_term, TermSum.tally_join, Sign.apply, Term.named]
  omega

end Expr

end LaurentCalc
