import LaurentCalc.Proofs.Collection
import LaurentCalc.Proofs.Constants
import LaurentCalc.Proofs.Marks

/-!
# Truncated quotients of sums

A sum is divided by an integer summand by summand, and every coefficient is truncated on its
own. The result depends on the collected coefficients alone exactly where the truncated
coefficients of like summands add up to the truncated sum of these coefficients, as they do if
the integer divides all of them or if no two summands are alike.
-/

namespace LaurentCalc

set_option autoImplicit false

def Term.truncated (c : Int) : Term → Term
  | .number v => .number (v.tdiv c)
  | .monomial x k e => .monomial x (k.tdiv c) e

namespace Term

theorem key_truncated (c : Int) (t : Term) : (t.truncated c).key = t.key := by cases t <;> rfl

theorem weight_truncated (c : Int) (t : Term) : (t.truncated c).weight = t.weight.tdiv c := by
  cases t <;> rfl

theorem truncated_neg (c : Int) (t : Term) : t.neg.truncated c = (t.truncated c).neg := by
  cases t with
  | number v => exact congrArg number (Int.neg_tdiv v c)
  | monomial x k e => exact congrArg (monomial x · e) (Int.neg_tdiv k c)

theorem div_number_eq {c : Int} (hc : c ≠ 0) (t : Term) :
    t.div (.number c) = .ok (t.truncated c) := by
  cases t with
  | number v => exact div_number hc
  | monomial x k e =>
    rw [div, quotient, if_neg hc]
    rfl

theorem share_neg (t : Term) : t.neg.share = -t.share := by
  cases t with
  | number v => rw [neg, share, share, Prod.neg_mk, neg_zero]
  | monomial x k e =>
    rw [neg, share, share]
    split
    · rw [Prod.neg_mk, neg_zero]
    · rw [Prod.neg_mk, neg_zero, Finsupp.single_neg]

theorem key_eq_of_unite? {s : Sign} {t u v : Term} (h : t.unite? s u = some v) : t.key = u.key := by
  obtain ⟨ht, hu⟩ := alike_of_unite? h
  exact congrArg (Option.filter _) (ht.trans hu.symm)

theorem over_truncated {P : String → Prop} (c : Int) {t : Term} (h : t.Over P) :
    (t.truncated c).Over P := by
  cases t <;> exact h

end Term

noncomputable section

def Collection.coefficient : Option (String × Int) → Collection →+ Int
  | none => AddMonoidHom.fst Int (String × Int →₀ Int)
  | some key => (Finsupp.applyAddHom key).comp (AddMonoidHom.snd Int (String × Int →₀ Int))

theorem Collection.ext_coefficient {a b : Collection}
    (h : ∀ key, coefficient key a = coefficient key b) : a = b := by
  apply Prod.ext
  · exact h none
  · ext key
    exact h (some key)

theorem Collection.coefficient_share (key : Option (String × Int)) (t : Term) :
    coefficient key t.share = if t.key = key then t.weight else 0 := by
  cases t with
  | number v => cases key <;> rfl
  | monomial x k e =>
    rw [Term.share, Term.key_monomial]
    by_cases hzero : e = 0
    · rw [if_pos hzero, if_pos hzero]
      cases key <;> rfl
    · rw [if_neg hzero, if_neg hzero]
      cases key with
      | none => rfl
      | some key => simp [coefficient, Finsupp.single_apply, Term.weight]

end

namespace TermSum

def truncated (c : Int) : TermSum → TermSum
  | .term t => .term (t.truncated c)
  | .join s l r => .join s (l.truncated c) (r.truncated c)

def coefficients (key : Option (String × Int)) (p : TermSum) : List Int := p.weights Term.key key

/-- The truncated coefficients of like summands add up to what their sum is truncated to. -/
def TruncatesEvenly (c : Int) (p : TermSum) : Prop :=
  ∀ key, ((p.coefficients key).map (·.tdiv c)).sum = (p.coefficients key).sum.tdiv c

variable {c : Int} {p q : TermSum}

theorem div_number_eq (hc : c ≠ 0) (p : TermSum) : p.div (number c) = .ok (p.truncated c) := by
  induction p with
  | term t =>
    rw [div, divTerm, united]
    simp only [Term.div_number_eq hc, ok_bind, pure_eq_ok, truncated]
  | join s l r ihl ihr =>
    rw [div, ihl, ihr, ok_bind, ok_bind, pure_eq_ok, Attempt.ok_orIfNoRule, truncated]

theorem over_truncated {P : String → Prop} (c : Int) (h : p.Over P) : (p.truncated c).Over P := by
  induction p with
  | term t => exact Term.over_truncated c h
  | join s l r ihl ihr => exact ⟨ihl h.1, ihr h.2⟩

theorem terms_truncated (c : Int) (p : TermSum) :
    (p.truncated c).terms = p.terms.map (Term.truncated c) := by
  induction p with
  | term t => rfl
  | join s l r ihl ihr =>
    cases s with
    | plus => rw [truncated, terms, terms, ihl, ihr, List.map_append]
    | minus =>
      have hneg : Term.neg ∘ Term.truncated c = Term.truncated c ∘ Term.neg := by
        funext t
        exact (Term.truncated_neg c t).symm
      rw [truncated, terms, terms, ihl, ihr, List.map_append, List.map_map, List.map_map, hneg]

theorem coefficients_truncated (c : Int) (key : Option (String × Int)) (p : TermSum) :
    (p.truncated c).coefficients key = (p.coefficients key).map (·.tdiv c) := by
  have hkey : (fun t : Term => decide (t.key = key)) ∘ Term.truncated c =
      fun t => decide (t.key = key) := by
    funext t
    exact congrArg (fun k => decide (k = key)) (t.key_truncated c)
  have hweight : Term.weight ∘ Term.truncated c = (·.tdiv c) ∘ Term.weight := by
    funext t
    exact t.weight_truncated c
  unfold coefficients weights
  rw [terms_truncated, List.filter_map, List.map_map, hkey, hweight, List.map_map]

theorem sum_map_share_terms (p : TermSum) : (p.terms.map Term.share).sum = p.collection :=
  sum_map_terms Term.share_neg (fun _ => rfl) (fun _ _ => rfl) (fun _ _ => rfl) p

theorem coefficient_collection (key : Option (String × Int)) (p : TermSum) :
    Collection.coefficient key p.collection = (p.coefficients key).sum := by
  have hshare : ⇑(Collection.coefficient key) ∘ Term.share =
      fun t => if t.key = key then t.weight else 0 :=
    funext (Collection.coefficient_share key)
  rw [← sum_map_share_terms, map_list_sum, List.map_map, hshare, coefficients, sum_weights]

theorem laurent_eq_iff_coefficients :
    p.laurent = q.laurent ↔ ∀ key, (p.coefficients key).sum = (q.coefficients key).sum := by
  simp only [laurent_eq_iff, ← coefficient_collection]
  constructor
  · intro h key
    rw [h]
  · exact Collection.ext_coefficient

theorem laurent_truncated_eq_iff (h : p.laurent = q.laurent) (hq : q.TruncatesEvenly c) :
    (p.truncated c).laurent = (q.truncated c).laurent ↔ p.TruncatesEvenly c := by
  have hsum := laurent_eq_iff_coefficients.mp h
  rw [laurent_eq_iff_coefficients]
  refine forall_congr' fun key => ?_
  rw [coefficients_truncated, coefficients_truncated, hq key, hsum key]

/-- Of two sums of the same polynomial one of which truncates evenly, the truncated sums have the
same text exactly if the other one does so, too. -/
theorem render_truncated_eq_iff (hp : p.Over Spelled) (hq : q.Over Spelled)
    (h : p.laurent = q.laurent) (heven : q.TruncatesEvenly c) :
    (p.truncated c).render = (q.truncated c).render ↔ p.TruncatesEvenly c := by
  rw [render_eq_iff (over_truncated c hp) (over_truncated c hq)]
  exact laurent_truncated_eq_iff h heven

def Unlike (p : TermSum) : Prop := (p.terms.map Term.key).Nodup

theorem map_key_terms_join (s : Sign) (l r : TermSum) :
    (join s l r).terms.map Term.key = l.terms.map Term.key ++ r.terms.map Term.key := by
  cases s with
  | plus => exact List.map_append
  | minus =>
    have hneg : Term.key ∘ Term.neg = Term.key := by
      funext t
      exact t.key_neg
    rw [terms, List.map_append, List.map_map, hneg]

namespace Unlike

variable {s : Sign} {l r : TermSum}

theorem left (h : (join s l r).Unlike) : l.Unlike := by
  rw [Unlike, map_key_terms_join] at h
  exact (List.nodup_append.mp h).1

theorem right (h : (join s l r).Unlike) : r.Unlike := by
  rw [Unlike, map_key_terms_join] at h
  exact (List.nodup_append.mp h).2.1

theorem unite_eq (h : (join s l r).Unlike) : unite s l r = join s l r := by
  unfold unite
  split
  · next t u =>
    split
    · next v hunite =>
      rw [Unlike, map_key_terms_join] at h
      have hkey := Term.key_eq_of_unite? hunite
      exact absurd hkey ((List.nodup_append.mp h).2.2 _ List.mem_cons_self _ List.mem_cons_self)
    · rfl
  · rfl

end Unlike

theorem truncatesEvenly_of_unlike (h : p.Unlike) (c : Int) : p.TruncatesEvenly c := by
  intro key
  have hlength : (p.coefficients key).length ≤ 1 := by
    have hcount := List.nodup_iff_count_le_one.mp h key
    rw [List.count, List.countP_map, List.countP_eq_length_filter] at hcount
    rw [coefficients, weights, List.length_map]
    simpa only [Function.comp_def, beq_eq_decide] using hcount
  generalize p.coefficients key = vs at hlength
  rcases vs with _ | ⟨v, _ | ⟨w, vs⟩⟩
  · exact (Int.zero_tdiv c).symm
  · simp
  · simp only [List.length_cons] at hlength
    omega

theorem truncatesEvenly_of_dvd (h : ∀ t ∈ p.terms, c ∣ t.weight) : p.TruncatesEvenly c := by
  intro key
  have hdvd : ∀ v ∈ p.coefficients key, c ∣ v := by
    intro v hv
    obtain ⟨t, ht, rfl⟩ := List.mem_map.mp hv
    exact h t (List.mem_of_mem_filter ht)
  generalize p.coefficients key = vs at hdvd
  induction vs with
  | nil => exact (Int.zero_tdiv c).symm
  | cons v vs ih =>
    obtain ⟨hv, hvs⟩ := List.forall_mem_cons.mp hdvd
    have hsum : c ∣ vs.sum := List.dvd_sum hvs
    rw [List.map_cons, List.sum_cons, List.sum_cons, ih hvs, Int.tdiv_eq_ediv_of_dvd hv,
      Int.tdiv_eq_ediv_of_dvd hsum, Int.tdiv_eq_ediv_of_dvd (Int.dvd_add hv hsum),
      Int.add_ediv_of_dvd_left hv]

end TermSum

end LaurentCalc
