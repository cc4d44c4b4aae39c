import LaurentCalc.Proofs.Denominators

/-!
# Equal operands

The quotient of an expression by itself is carried out side by side as any other is, and equal
operands make one only where that has no rule. So it is one if the terms of the expression do not
unite, or if a side of it waits for them to be reduced to a term. Otherwise the sides are like
terms, each of which is divided by what they unite to and truncated.
-/

namespace LaurentCalc

set_option autoImplicit false

namespace Term

variable {t u v : Term}

/-- The quotient of like terms is an integer. -/
theorem Alike.exists_div (h : t.Alike u) (hu : u.weight ≠ 0) :
    ∃ v, t.div u = .ok v ∧
      (TermSum.term v).laurent = ((t.weight.tdiv u.weight : Int) : Laurent) := by
  cases t with
  | number a =>
    cases u with
    | number b => exact ⟨.number (a.tdiv b), div_number hu, rfl⟩
    | monomial y d f => cases h
  | monomial x c e =>
    cases u with
    | number b => cases h
    | monomial y d f =>
      obtain ⟨rfl, rfl⟩ := Prod.mk.inj (Option.some.inj h)
      have hd : d ≠ 0 := hu
      refine ⟨.monomial x (c.tdiv d) (e - e), ?_, ?_⟩
      · rw [div, if_pos rfl, quotient, if_neg hd]
        rfl
      · rw [TermSum.laurent, TermSum.value, value, Int.sub_self, zpow_zero, Units.val_one, mul_one]
        rfl

end Term

namespace TermSum

def Like (u : Term) : TermSum → Prop
  | .term t => t.Alike u
  | .join _ l r => l.Like u ∧ r.Like u

variable {p q : TermSum} {t u : Term}

theorem Like.trans (h : p.Like t) (htu : t.Alike u) : p.Like u := by
  induction p with
  | term v => exact Term.Alike.trans h htu
  | join s l r ihl ihr => exact ⟨ihl h.1, ihr h.2⟩

theorem unite_eq_term {s : Sign} (h : unite s p q = .term u) :
    ∃ t t', p = .term t ∧ q = .term t' ∧ t.unite? s t' = some u := by
  unfold unite at h
  split at h
  · next t t' =>
    split at h
    · next hunite =>
      cases h
      exact ⟨t, t', rfl, rfl, hunite⟩
    · cases h
  · cases h

theorem isTerm_of_unite {s : Sign} (h : (unite s p q).IsTerm) : p.IsTerm ∧ q.IsTerm := by
  obtain ⟨u, hu⟩ := isTerm_iff.mp h
  obtain ⟨t, t', rfl, rfl, -⟩ := unite_eq_term hu
  exact ⟨trivial, trivial⟩

theorem unite_eq_join {s : Sign} (h : ¬(unite s p q).IsTerm) : unite s p q = join s p q := by
  cases hunite : unite s p q with
  | term u => exact absurd (isTerm_iff.mpr ⟨u, hunite⟩) h
  | join s' l r =>
    obtain ⟨rfl, rfl, rfl⟩ := united_of_unite_eq_join hunite
    rfl

theorem like_of_united (h : p.united = .term u) : p.Like u := by
  induction p generalizing u with
  | term t =>
    obtain rfl := TermSum.term.inj h
    exact Term.Alike.refl t
  | join s l r ihl ihr =>
    obtain ⟨t, t', hl, hr, hunite⟩ := unite_eq_term h
    obtain ⟨ht, ht'⟩ := Term.alike_of_unite? hunite
    exact ⟨(ihl hl).trans ht, (ihr hr).trans ht'⟩

theorem united_unite_eq (s : Sign) (p q : TermSum) :
    (unite s p q).united = unite s p.united q.united := by
  by_cases hterm : (unite s p q).IsTerm
  · obtain ⟨u, hu⟩ := isTerm_iff.mp hterm
    obtain ⟨t, t', rfl, rfl, -⟩ := unite_eq_term hu
    rw [hu]
    exact hu.symm
  · rw [unite_eq_join hterm]
    rfl

/-- A sum that stands for an integer is printed as such. -/
theorem render_eq_repr {n : Int} (h : p.laurent = (n : Laurent)) : p.render = n.repr := by
  have hrender : p.render = (number n).render := render_eq_of_laurent_eq h
  rw [hrender, (constant_number n).render_eq]
  rfl

theorem render_eq_one_iff {n : Int} (h : p.laurent = (n : Laurent)) : p.render = "1" ↔ n = 1 := by
  rw [render_eq_repr h]
  constructor
  · intro hone
    have hover : ∀ v : Int, (number v).Over Spelled := fun _ => trivial
    have hlaurent : (number n).laurent = (number 1).laurent :=
      (render_eq_iff (hover n) (hover 1)).mp ((constant_number n).render_eq.trans hone)
    exact congrArg Prod.fst (laurent_eq_iff.mp hlaurent)
  · rintro rfl
    rfl

/-- Like terms are divided one by one, each quotient truncated. -/
theorem Like.exists_div (hp : p.Like u) (hq : q.united = .term u) (hu : u.weight ≠ 0) :
    ∃ m, p.div q = .ok m ∧
      m.laurent = ((p.numbers.map (·.tdiv u.weight)).sum : Int) := by
  induction p with
  | term t =>
    obtain ⟨v, hv, hlaurent⟩ := Term.Alike.exists_div hp hu
    refine ⟨.term v, ?_, ?_⟩
    · rw [div, divTerm, hq]
      simp only [hv]
      rfl
    · rw [hlaurent]
      simp [numbers, terms]
  | join s l r ihl ihr =>
    obtain ⟨l', hl, hlaurentLeft⟩ := ihl hp.1
    obtain ⟨r', hr, hlaurentRight⟩ := ihr hp.2
    refine ⟨.join s l' r', ?_, ?_⟩
    · rw [div_join, hl, hr, Attempt.joined_ok]
    · rw [sum_tdiv_numbers_join, Sign.cast_apply, ← hlaurentLeft, ← hlaurentRight]
      rfl

theorem length_terms_join (s : Sign) (l r : TermSum) :
    (join s l r).terms.length = l.terms.length + r.terms.length := by
  cases s with
  | plus => exact List.length_append
  | minus => rw [terms, List.length_append, List.length_map]

theorem length_terms_pos (p : TermSum) : 0 < p.terms.length := by
  induction p with
  | term t => exact Nat.one_pos
  | join s l r ihl ihr =>
    rw [length_terms_join]
    omega

theorem length_lt_unite {s : Sign} (h : ¬(unite s p q).IsTerm) :
    p.terms.length < (unite s p q).terms.length ∧
      q.terms.length < (unite s p q).terms.length := by
  have hp := p.length_terms_pos
  have hq := q.length_terms_pos
  rw [unite_eq_join h, length_terms_join]
  omega

theorem length_le_unite (s : Sign) (p q : TermSum) :
    p.terms.length ≤ (unite s p q).terms.length ∧
      q.terms.length ≤ (unite s p q).terms.length := by
  by_cases hterm : (unite s p q).IsTerm
  · have hpos := (unite s p q).length_terms_pos
    obtain ⟨hp, hq⟩ := isTerm_of_unite hterm
    obtain ⟨t, rfl⟩ := isTerm_iff.mp hp
    obtain ⟨u, rfl⟩ := isTerm_iff.mp hq
    exact ⟨hpos, hpos⟩
  · exact ⟨(length_lt_unite hterm).1.le, (length_lt_unite hterm).2.le⟩

/-- A sum joined from two is none of them. -/
theorem ne_of_length_unite_le {s : Sign} {p₁ p₂ : TermSum} (hterm : ¬q.IsTerm)
    (hle : (unite s p₁ p₂).terms.length ≤ q.terms.length) : p₁ ≠ q ∧ p₂ ≠ q := by
  constructor
  · rintro rfl
    exact absurd hle (length_lt_unite (mt isTerm_of_unite fun h => hterm h.1)).1.not_ge
  · rintro rfl
    exact absurd hle (length_lt_unite (mt isTerm_of_unite fun h => hterm h.2)).2.not_ge

/-- Nothing that unites to fewer terms has a quotient by a sum whose terms do not unite. -/
theorem div_of_fewer (hq : ¬q.united.IsTerm)
    (hfewer : p.united.terms.length < q.united.terms.length) : p.div q = .error .noRule := by
  induction p with
  | term t => exact divTerm_of_not_isTerm hq t
  | join s l r ihl ihr =>
    -- Operands count as equal here if they unite to the same sum, so it is the united terms that
    -- are counted.
    have hle := length_le_unite s l.united r.united
    have hne : (join s l r).united ≠ q.united := by
      intro heq
      rw [heq] at hfewer
      exact lt_irrefl _ hfewer
    rw [div_join, ihl (hle.1.trans_lt hfewer), Attempt.joined_noRule, if_neg hne]

theorem div_self_of_not_isTerm (hp : ¬p.united.IsTerm) : p.div p = .ok (number 1) := by
  cases p with
  | term t => exact absurd trivial hp
  | join s l r =>
    rw [div_join, div_of_fewer hp (length_lt_unite hp).1, Attempt.joined_noRule, if_pos rfl]

end TermSum

namespace Expr

variable {a b e : Expr} {p q d m : TermSum} {t u : Term}

namespace DividedBy

variable {x : Attempt TermSum} (h : DividedBy b q a p d x)
include h

theorem united_eq : d.united = p.united := by
  induction h with
  | whole ha hside => rfl
  | withheld t h => rfl
  | apart s hl hr ihl ihr => rw [TermSum.united_unite_eq, TermSum.united, ihl, ihr]

theorem eq_noRule_of_fewer (hq : ¬q.united.IsTerm)
    (hfewer : p.united.terms.length < q.united.terms.length) : x = .error .noRule := by
  induction h with
  | whole ha hside => exact TermSum.div_of_fewer hq hfewer
  | withheld t h => rfl
  | @apart s l r p₁ p₂ d₁ d₂ x y hl hr ihl ihr =>
    have hne : p₁.unite s p₂ ≠ q := by
      rintro rfl
      exact lt_irrefl _ hfewer
    rw [TermSum.united_unite_eq] at hfewer
    have hle := TermSum.length_le_unite s p₁.united p₂.united
    rw [ihl (hle.1.trans_lt hfewer), Attempt.joined_noRule, if_neg hne]

/-- Equal operands whose terms do not unite have no other quotient than one. -/
theorem eq_one_of_not_isTerm (hq : ¬q.united.IsTerm) (heq : p = q) : x = .ok (.number 1) := by
  cases h with
  | whole ha hside =>
    subst heq
    exact TermSum.div_self_of_not_isTerm hq
  | withheld t h =>
    subst heq
    exact absurd trivial hq
  | @apart s l r p₁ p₂ d₁ d₂ x y hl hr =>
    subst heq
    rw [TermSum.united_unite_eq] at hq
    have hfewer := (TermSum.length_lt_unite hq).1
    rw [← TermSum.united_unite_eq] at hq hfewer
    rw [hl.eq_noRule_of_fewer hq hfewer, Attempt.joined_noRule, if_pos rfl]

section LikeTerms

variable (hd : d.Like u) (hq : q.united = .term u) (hu : u.weight ≠ 0)
include hd hq hu

/-- Where no side has to wait, all of them are divided and truncated. -/
theorem exists_quotient (hside : ∀ t, .term t ∈ a.sides → b.DividesTerms q) :
    ∃ m, x = .ok m ∧ m.laurent = ((d.numbers.map (·.tdiv u.weight)).sum : Int) := by
  induction h with
  | whole ha _ => exact hd.exists_div hq hu
  | withheld t h => exact absurd (hside t List.mem_cons_self) h
  | @apart s l r p₁ p₂ d₁ d₂ x y hl hr ihl ihr =>
    obtain ⟨m₁, hm₁, hlaurentLeft⟩ := ihl hd.1 fun t ht => hside t (List.mem_append_left _ ht)
    obtain ⟨m₂, hm₂, hlaurentRight⟩ := ihr hd.2 fun t ht => hside t (List.mem_append_right _ ht)
    refine ⟨.join s m₁ m₂, ?_, ?_⟩
    · rw [hm₁, hm₂, Attempt.joined_ok]
    · rw [TermSum.sum_tdiv_numbers_join, Sign.cast_apply, ← hlaurentLeft, ← hlaurentRight]
      rfl

theorem meets_noRule : x.Meets (· = .noRule) := by
  induction h with
  | whole ha _ =>
    obtain ⟨m, hm, -⟩ := hd.exists_div hq hu
    exact Attempt.meets_of_exists ⟨m, hm⟩
  | withheld t h => exact Attempt.meets_error rfl
  | apart s hl hr ihl ihr => exact (ihl hd.1).joined rfl (ihr hd.2)

/-- A side that has to wait leaves nothing but the quotient of equal operands. -/
theorem eq_of_withheld (ht : .term t ∈ a.sides) (hb : ¬b.DividesTerms q)
    (hle : p.terms.length ≤ q.terms.length) :
    x = if p = q then .ok (.number 1) else .error .noRule := by
  have hterm : ¬q.IsTerm := (Classical.not_imp.mp hb).2
  induction h with
  | whole ha hside => exact absurd (hside t ht) hb
  | withheld v h =>
    rw [if_neg]
    rintro rfl
    exact hterm trivial
  | @apart s l r p₁ p₂ d₁ d₂ x y hl hr ihl ihr =>
    obtain ⟨hle₁, hle₂⟩ := TermSum.length_le_unite s p₁ p₂
    obtain ⟨hne₁, hne₂⟩ := TermSum.ne_of_length_unite_le hterm hle
    rcases List.mem_append.mp ht with ht | ht
    · rw [ihl hd.1 ht (hle₁.trans hle), if_neg hne₁, Attempt.joined_noRule]
    · rw [ihr hd.2 ht (hle₂.trans hle), if_neg hne₂]
      -- The other side is divided first, and must not end the whole quotient with its obstacle.
      exact Attempt.joined_noRule_right (hl.meets_noRule hd.1 hq hu)

end LikeTerms

end DividedBy

/-- Equal operands make one, or the sides of the expression are divided by what they unite to. -/
theorem self_quotient_cases (h : e.reduce = .ok p) (hzero : p.laurent ≠ 0) :
    ∃ d, e.dividend e = .ok d ∧
      ((¬p.united.IsTerm ∨ ∃ t, .term t ∈ e.sides ∧ ¬e.DividesTerms p) ∧
          (scaling .div e e).reduce = .ok (.number 1) ∨
        (∀ t, .term t ∈ e.sides → e.DividesTerms p) ∧
          ∃ u m, p.united = .term u ∧ (scaling .div e e).reduce = .ok m ∧
            m.laurent = ((d.numbers.map (·.tdiv u.weight)).sum : Int)) := by
  obtain ⟨d, hd, hdivided⟩ := exists_dividedBy h h
  refine ⟨d, hd, ?_⟩
  by_cases hterm : p.united.IsTerm
  · obtain ⟨u, hu⟩ := TermSum.isTerm_iff.mp hterm
    have hweight : u.weight ≠ 0 := mt (TermSum.laurent_eq_zero_iff hu).mpr hzero
    have hlike : d.Like u := TermSum.like_of_united (hdivided.united_eq.trans hu)
    by_cases hside : ∀ t, .term t ∈ e.sides → e.DividesTerms p
    · obtain ⟨m, hm, hlaurent⟩ := hdivided.exists_quotient hlike hu hweight hside
      exact Or.inr ⟨hside, u, m, hu, hm, hlaurent⟩
    · obtain ⟨t, ht⟩ := not_forall.mp hside
      obtain ⟨ht, hb⟩ := Classical.not_imp.mp ht
      have hm := hdivided.eq_of_withheld hlike hu hweight ht hb le_rfl
      rw [if_pos rfl] at hm
      exact Or.inl ⟨Or.inr ⟨t, ht, hb⟩, hm⟩
  · exact Or.inl ⟨Or.inl hterm, hdivided.eq_one_of_not_isTerm hterm rfl⟩

/-- An expression that does not stand for zero always has a quotient by itself. It is one if the
terms of the expression do not unite, or if a plain term is a side of it and has to wait for them to
be reduced to a term. Otherwise it is the integer to which the truncated quotients of the sides by
the united term add up. -/
theorem reduce_self_quotient (h : e.reduce = .ok p) (hzero : p.laurent ≠ 0) :
    ∃ d m, e.dividend e = .ok d ∧ (scaling .div e e).reduce = .ok m ∧
      (¬p.united.IsTerm ∨ (∃ t, .term t ∈ e.sides ∧ ¬e.DividesTerms p) → m = .number 1) ∧
      (∀ u, p.united = .term u → (∀ t, .term t ∈ e.sides → e.DividesTerms p) →
        m.render = Int.repr (d.numbers.map (·.tdiv u.weight)).sum) ∧
      (m.render = "1" ↔ ∀ u, p.united = .term u →
        (∀ t, .term t ∈ e.sides → e.DividesTerms p) →
          (d.numbers.map (·.tdiv u.weight)).sum = 1) := by
  obtain ⟨d, hd, ⟨hequal, hm⟩ | ⟨hside, u, m, hu, hm, hlaurent⟩⟩ := self_quotient_cases h hzero
  · have hnot : ∀ u, p.united = .term u → ¬∀ t, .term t ∈ e.sides → e.DividesTerms p := by
      intro u hu hside
      rcases hequal with hterm | ⟨t, ht, hb⟩
      · exact hterm (TermSum.isTerm_iff.mpr ⟨u, hu⟩)
      · exact hb (hside t ht)
    refine ⟨d, .number 1, hd, hm, fun _ => rfl, ?_, ?_⟩
    · intro u hu hside
      exact absurd hside (hnot u hu)
    · exact ⟨fun _ u hu hside => absurd hside (hnot u hu), fun _ => rfl⟩
  · refine ⟨d, m, hd, hm, ?_, ?_, ?_⟩
    · rintro (hnot | ⟨t, ht, hnot⟩)
      · exact absurd (TermSum.isTerm_iff.mpr ⟨u, hu⟩) hnot
      · exact absurd (hside t ht) hnot
    · intro u' hu' _
      obtain rfl := TermSum.term.inj (hu.symm.trans hu')
      exact TermSum.render_eq_repr hlaurent
    · rw [TermSum.render_eq_one_iff hlaurent]
      constructor
      · intro hone u' hu' _
        obtain rfl := TermSum.term.inj (hu.symm.trans hu')
        exact hone
      · intro hall
        exact hall u hu hside

set_option maxRecDepth 20000 in
theorem reduce_self_quotient_like_terms :
    (scaling .div (additive .plus (.term (.named "x")) (number 1))
      (additive .plus (.term (.named "x")) (number 1))).reduce = .ok (.number 1) ∧
    (∃ m, (scaling .div
        (additive .minus (.term (.monomial "x" 5 1)) (.term (.monomial "x" 2 1)))
        (additive .minus (.term (.monomial "x" 5 1)) (.term (.monomial "x" 2 1)))).reduce = .ok m ∧
      m.render = "1") := by
  have hsum : (additive .plus (.term (.named "x")) (number 1)).reduce =
      .ok (.join .plus (.term (.named "x")) (.number 1)) := by cbv
  have hunlike : ¬(TermSum.join .plus (.term (.named "x")) (.number 1)).united.IsTerm := id
  have hnonzero : (TermSum.join .plus (.term (.named "x")) (.number 1)).laurent ≠ 0 := by
    intro hzero
    have hlaurent : (TermSum.number 0).laurent = 0 := Int.cast_zero
    rw [← hlaurent, TermSum.laurent_eq_iff_coefficients] at hzero
    exact absurd (hzero none) (by decide)
  have hterm : (additive .minus (.term (.monomial "x" 5 1)) (.term (.monomial "x" 2 1))).reduce =
      .ok (.term (.monomial "x" 3 1)) := by cbv
  have hdividend : (additive .minus (.term (.monomial "x" 5 1))
      (.term (.monomial "x" 2 1))).dividend
        (additive .minus (.term (.monomial "x" 5 1)) (.term (.monomial "x" 2 1))) =
          .ok (.join .minus (.term (.monomial "x" 5 1)) (.term (.monomial "x" 2 1))) := by cbv
  have hnonzero' : (TermSum.term (.monomial "x" 3 1)).laurent ≠ 0 :=
    mt Term.laurent_eq_zero_iff.mp (by decide)
  obtain ⟨-, m, -, hm, hone, -⟩ := reduce_self_quotient hsum hnonzero
  obtain ⟨d, m', hd, hm', -, -, hiff⟩ := reduce_self_quotient hterm hnonzero'
  obtain rfl := Except.ok.inj (hdividend.symm.trans hd)
  refine ⟨?_, m', hm', hiff.mpr fun u hu _ => ?_⟩
  · rw [hm, hone (Or.inl hunlike)]
  · obtain rfl := TermSum.term.inj hu
    decide

set_option maxRecDepth 20000 in
/-- The quotients of the sides may all be zero. -/
theorem reduce_self_quotients_of_equal_sides :
    (∃ p m, (additive .plus (number 1) (number 2)).reduce = .ok p ∧ p.laurent ≠ 0 ∧
      (scaling .div (additive .plus (number 1) (number 2))
        (additive .plus (number 1) (number 2))).reduce = .ok m ∧ m.render = "0") ∧
    (∃ p m, (additive .plus (.term (.named "x")) (.term (.named "x"))).reduce = .ok p ∧
      p.laurent ≠ 0 ∧
      (scaling .div (additive .plus (.term (.named "x")) (.term (.named "x")))
        (additive .plus (.term (.named "x")) (.term (.named "x")))).reduce = .ok m ∧
      m.render = "0") ∧
    (evaluate 600 false "(1+2)/(1+2)").outcome = .ok "0" ∧
    (evaluate 600 false "(x + x) / (x + x)").outcome = .ok "0" := by
  refine ⟨⟨.number 3, .join .plus (.number 0) (.number 0), ?_, ?_, ?_, ?_⟩,
    ⟨.term (.monomial "x" 2 1),
      .join .plus (.term (.monomial "x" 0 0)) (.term (.monomial "x" 0 0)), ?_, ?_, ?_, ?_⟩, ?_, ?_⟩
  · cbv
  · exact mt Term.laurent_eq_zero_iff.mp (by decide)
  · cbv
  · cbv
  · cbv
  · exact mt Term.laurent_eq_zero_iff.mp (by decide)
  all_goals cbv

end Expr

end LaurentCalc
