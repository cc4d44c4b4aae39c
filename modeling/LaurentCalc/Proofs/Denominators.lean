import LaurentCalc.Proofs.Quotients
import LaurentCalc.Proofs.ZeroPowers

/-!
# Denominators

A quotient is carried out side by side over the sum in its numerator. A side that stands there
as a plain term is divided by a sum only once that has reduced to a term; any other side needs
no more than that the terms of the divisor unite. So a zero in the denominator is met where its
terms unite, and met by the first summand of the numerator. Where they do not unite, nothing is
divided, and only equal operands still have a quotient.
-/

namespace LaurentCalc

set_option autoImplicit false

instance (p q : TermSum) : Decidable (p.SameNames q) :=
  inferInstanceAs (Decidable (∀ x ∈ p.names, ∀ y ∈ q.names, x = y))

theorem Sign.combine_zero {R : Type} [CommRing R] (s : Sign) : s.combine (0 : R) 0 = 0 := by
  cases s with
  | plus => exact add_zero 0
  | minus => exact sub_zero 0

theorem Attempt.orIfNoRule_of_ne {α : Type} {x : Attempt α} (h : x ≠ .error .noRule)
    (y : Attempt α) : x.orIfNoRule y = x := by
  unfold orIfNoRule
  split
  · exact absurd rfl h
  · rfl

namespace Term

variable {t u : Term} {x y : String}

/-- The obstacle to dividing a term by a zero term. -/
def zeroDivision (t u : Term) : Obstacle :=
  if (TermSum.term t).SameNames (.term u) then .divisionByZero t.weight else .noRule

theorem eq_of_mem_names (hx : x ∈ t.names) (hy : y ∈ t.names) : x = y := by
  cases t with
  | number v => cases hx
  | monomial z c e =>
    rw [List.mem_singleton.mp hx, List.mem_singleton.mp hy]

theorem sameNames_monomial {c d e f : Int} :
    (TermSum.term (.monomial x c e)).SameNames (.term (.monomial y d f)) ↔ x = y := by
  simp [TermSum.SameNames, TermSum.names, names]

theorem div_zero (hu : u.weight = 0) (t : Term) : t.div u = .error (t.zeroDivision u) := by
  have hquotient : ∀ a : Int, quotient a 0 = .error (.divisionByZero a) := fun _ => if_pos rfl
  cases u with
  | number w =>
    have hzero : w = 0 := hu
    have hsame : (TermSum.term t).SameNames (.number w) := fun _ _ _ hy => nomatch hy
    rw [zeroDivision, if_pos hsame, hzero]
    cases t <;> rw [div, hquotient] <;> rfl
  | monomial y d f =>
    have hzero : d = 0 := hu
    cases t with
    | number v =>
      have hsame : (TermSum.number v).SameNames (.term (.monomial y d f)) :=
        fun _ hx => nomatch hx
      rw [zeroDivision, if_pos hsame, hzero, div, hquotient]
      rfl
    | monomial x c e =>
      simp only [zeroDivision, sameNames_monomial, div]
      split
      · rw [hzero, hquotient]
        rfl
      · rfl

end Term

namespace Attempt

/-- The quotients of two sides joined; where these have no rule, one if the operands are equal. -/
def joined (s : Sign) (equal : Prop) [Decidable equal] (x y : Attempt TermSum) : Attempt TermSum :=
  orIfNoRule
    (do
      let l ← x
      let r ← y
      return .join s l r)
    (if equal then .ok (.number 1) else .error .noRule)

variable {s : Sign} {equal : Prop} [Decidable equal] {x y : Attempt TermSum}

theorem joined_ok (l r : TermSum) : joined s equal (.ok l) (.ok r) = .ok (.join s l r) := rfl

theorem joined_noRule (y : Attempt TermSum) :
    joined s equal (.error .noRule) y = if equal then .ok (.number 1) else .error .noRule := rfl

theorem joined_eq_ok {m : TermSum} (h : joined s equal x y = .ok m) :
    (∃ l r, x = .ok l ∧ y = .ok r ∧ m = .join s l r) ∨ equal ∧ m = .number 1 := by
  rcases orIfNoRule_eq_ok h with h | ⟨-, h⟩
  · obtain ⟨l, hl, h⟩ := bind_eq_ok_iff.mp h
    obtain ⟨r, hr, hm⟩ := bind_eq_ok_iff.mp h
    exact Or.inl ⟨l, r, hl, hr, (Except.ok.inj hm).symm⟩
  · split at h
    · next hequal => exact Or.inr ⟨hequal, (Except.ok.inj h).symm⟩
    · cases h

theorem joined_noRule_right (hx : x.Meets (· = .noRule)) :
    joined s equal x (.error .noRule) = if equal then .ok (.number 1) else .error .noRule := by
  cases x with
  | ok l => rfl
  | error o =>
    obtain rfl := hx o rfl
    rfl

/-- Operands that are equal to a zero have no name that the zero does not have. -/
theorem joined_zeroDivision {t u : Term} (h : equal → (TermSum.term t).SameNames (.term u)) :
    joined s equal (.error (t.zeroDivision u)) y = .error (t.zeroDivision u) := by
  unfold Term.zeroDivision
  split
  · rfl
  · next hnames => exact if_neg (mt h hnames)

theorem Meets.joined {P : Obstacle → Prop} (hx : x.Meets P) (hnoRule : P .noRule)
    (hy : y.Meets P) : (joined s equal x y).Meets P := by
  apply Meets.orIfNoRule
  · exact hx.bind fun _ _ => hy.bind fun _ _ => meets_ok _
  · split
    · exact meets_ok _
    · exact meets_error hnoRule

end Attempt

namespace TermSum

variable {p q l r m : TermSum} {t u : Term} {x : String}

theorem div_join (s : Sign) (l r q : TermSum) :
    (join s l r).div q =
      Attempt.joined s ((join s l r).united = q.united) (l.div q) (r.div q) := rfl

def leading : TermSum → Term
  | .term t => t
  | .join _ l _ => l.leading

/-- Nothing is summed up but ones. -/
def IsTally (m : TermSum) : Prop := ∀ t ∈ m.terms, t = .number 1 ∨ t = .number (-1)

theorem mem_names_of_leading (h : x ∈ p.leading.names) : x ∈ p.names := by
  induction p with
  | term t => exact h
  | join s l r ihl ihr => exact List.mem_append_left _ (ihl h)

theorem mem_names_united : x ∈ p.united.names ↔ x ∈ p.names := by
  induction p with
  | term t => exact Iff.rfl
  | join s l r ihl ihr => rw [united, mem_names_unite, ihl, ihr, names, List.mem_append]

/-- A sum that unites to a term has no other name than that term. -/
theorem sameNames_leading (hq : q.united = .term u) (hx : ∀ x ∈ t.names, x ∈ q.names) :
    (TermSum.term t).SameNames (.term u) := by
  intro x hx' y hy
  have hmem := mem_names_united.mpr (hx x hx')
  rw [hq] at hmem
  exact Term.eq_of_mem_names hmem hy

theorem laurent_join (s : Sign) (l r : TermSum) :
    (join s l r).laurent = s.combine l.laurent r.laurent := rfl

theorem laurent_united (p : TermSum) : p.united.laurent = p.laurent := value_united p

theorem laurent_eq_zero_iff (hq : q.united = .term u) : q.laurent = 0 ↔ u.weight = 0 := by
  rw [← laurent_united, hq, Term.laurent_eq_zero_iff]

/-- Dividing a sum by zero fails at its first summand. -/
theorem div_zero (hq : q.united = .term u) (hu : u.weight = 0) (p : TermSum) :
    p.div q = .error (p.leading.zeroDivision u) := by
  induction p with
  | term t =>
    rw [div, divTerm, hq, leading]
    simp only [Term.div_zero hu]
    rfl
  | join s l r ihl ihr =>
    rw [div_join, ihl]
    apply Attempt.joined_zeroDivision
    intro heq
    apply sameNames_leading hq
    intro x hx
    rw [← mem_names_united, ← heq, mem_names_united]
    exact List.mem_append_left _ (mem_names_of_leading hx)

theorem isTally_one : (number 1).IsTally := fun _ ht => Or.inl (List.mem_singleton.mp ht)

theorem isTally_join (s : Sign) (hl : l.IsTally) (hr : r.IsTally) : (join s l r).IsTally := by
  intro t ht
  cases s with
  | plus =>
    rcases List.mem_append.mp ht with ht | ht
    · exact hl t ht
    · exact hr t ht
  | minus =>
    rcases List.mem_append.mp ht with ht | ht
    · exact hl t ht
    · obtain ⟨u, hu, rfl⟩ := List.mem_map.mp ht
      rcases hr u hu with rfl | rfl
      · exact Or.inr rfl
      · exact Or.inl rfl

/-- No term has a quotient by zero, whether the terms of the zero unite or not. -/
theorem divTerm_ne_ok (hzero : q.laurent = 0) (t : Term) : divTerm t q ≠ .ok m := by
  intro h
  unfold divTerm at h
  split at h
  · next u hq =>
    rw [Term.div_zero ((laurent_eq_zero_iff hq).mp hzero) t] at h
    cases h
  · cases h

/-- Only what is zero itself has a quotient by zero. -/
theorem isTally_of_div (hzero : q.laurent = 0) (h : p.div q = .ok m) :
    m.IsTally ∧ p.laurent = 0 := by
  induction p generalizing m with
  | term t => exact absurd h (divTerm_ne_ok hzero t)
  | join s l r ihl ihr =>
    rw [div_join] at h
    rcases Attempt.joined_eq_ok h with ⟨l', r', hl, hr, rfl⟩ | ⟨heq, rfl⟩
    · obtain ⟨htallyLeft, hlaurentLeft⟩ := ihl hl
      obtain ⟨htallyRight, hlaurentRight⟩ := ihr hr
      refine ⟨isTally_join s htallyLeft htallyRight, ?_⟩
      rw [laurent_join, hlaurentLeft, hlaurentRight, Sign.combine_zero]
    · refine ⟨isTally_one, ?_⟩
      rw [← laurent_united, heq, laurent_united, hzero]

theorem divTerm_of_not_isTerm (hq : ¬q.united.IsTerm) (t : Term) :
    divTerm t q = .error .noRule := by
  unfold divTerm
  split
  · next u hu =>
    rw [hu] at hq
    exact absurd trivial hq
  · rfl

/-- Nothing is divided by a sum whose terms do not unite. -/
theorem meets_div_of_not_isTerm (hq : ¬q.united.IsTerm) (p : TermSum) :
    (p.div q).Meets (· = .noRule) := by
  induction p with
  | term t =>
    rw [div, divTerm_of_not_isTerm hq]
    exact Attempt.meets_error rfl
  | join s l r ihl ihr => exact ihl.joined rfl ihr

theorem div_self_ne_noRule (p : TermSum) : p.div p ≠ .error .noRule := by
  cases p with
  | term t =>
    intro h
    exact t.div_self_ne_noRule (Attempt.eq_noRule_of_bind_return h)
  | join s l r =>
    rw [div, if_pos rfl]
    intro h
    unfold Attempt.orIfNoRule at h
    split at h
    · cases h
    · next hfirst => exact hfirst h

/-- Equal operands are looked at once more where a quotient has no rule, to no effect. -/
theorem div_orIfNoRule (p q : TermSum) :
    (p.div q).orIfNoRule (if p = q then .ok (number 1) else .error .noRule) = p.div q := by
  by_cases heq : p = q
  · subst heq
    exact Attempt.orIfNoRule_of_ne p.div_self_ne_noRule _
  · rw [if_neg heq, Attempt.orIfNoRule_noRule]

end TermSum

namespace Expr

/-- The operands that additions and subtractions at the root join. -/
def sides : Expr → List Expr
  | .binary (.additive _) l r => l.sides ++ r.sides
  | e => [e]

def IsSum : Expr → Prop
  | .binary (.additive _) _ _ => True
  | _ => False

/-- A term that stands alone is divided by it: for that a sum has to be reduced to a term. -/
def DividesTerms (divisor : Expr) (q : TermSum) : Prop := divisor.IsSum → q.IsTerm

variable {a b e l r : Expr} {p q d m : TermSum} {u : Term} {x : String}

theorem not_isSum_iff : ¬e.IsSum ↔ ∀ s l r, e ≠ .additive s l r := by
  constructor
  · rintro h s l r rfl
    exact h trivial
  · intro h hsum
    unfold IsSum at hsum
    split at hsum
    · exact h _ _ _ rfl
    · exact hsum

theorem sides_of_not_isSum (h : ¬e.IsSum) : e.sides = [e] := by
  unfold sides
  split
  · exact absurd trivial h
  · rfl

theorem sides_ne_nil (e : Expr) : e.sides ≠ [] := by
  induction e using sidesInduction with
  | additive s l r ihl ihr => exact fun h => ihl (List.append_eq_nil_iff.mp h).1
  | other e hother =>
    rw [sides_of_not_isSum (not_isSum_iff.mpr hother)]
    exact List.cons_ne_nil e []

theorem head?_sides_additive (s : Sign) (l r : Expr) :
    (additive s l r).sides.head? = l.sides.head? :=
  List.head?_append_of_ne_nil l.sides l.sides_ne_nil

/-- A numerator that is not taken apart is divided as it reduces. -/
theorem reduce_quotient_of_operands (hl : l.reduce = .ok p) (hr : r.reduce = .ok q)
    (hterm : ∀ t, l = .term t → r.DividesTerms q) (hsum : l.IsSum → ¬r.Unsigned) :
    (scaling .div l r).reduce = p.div q := by
  suffices hdistribute : distribute .div l r = p.div q by
    rw [reduce, hdistribute, hl, hr, ok_bind, ok_bind]
    exact TermSum.div_orIfNoRule p q
  unfold distribute
  split
  · rw [reduce] at hl hr
    obtain rfl := Except.ok.inj hl
    obtain rfl := Except.ok.inj hr
    rfl
  · next t s x y =>
    obtain ⟨u, rfl⟩ := TermSum.isTerm_iff.mp (hterm t rfl trivial)
    rw [reduce] at hl
    obtain rfl := Except.ok.inj hl
    simp only [hr, ok_bind]
    rfl
  · rw [hl, hr]
    rfl
  · next hsign => exact absurd hsign (hsum trivial)
  · rw [hl, hr]
    rfl

theorem reduce_quotient_of_not_dividesTerms (hr : r.reduce = .ok q) (h : ¬r.DividesTerms q)
    (t : Term) : (scaling .div (.term t) r).reduce = .error .noRule := by
  obtain ⟨hsum, hterm⟩ := Classical.not_imp.mp h
  have hne : TermSum.term t ≠ q := fun heq => hterm (TermSum.isTerm_iff.mpr ⟨t, heq.symm⟩)
  unfold IsSum at hsum
  split at hsum
  · cases q with
    | term u => exact absurd trivial hterm
    | join s p q =>
      rw [reduce, distribute, reduce, hr]
      simp only [ok_bind, Attempt.noRule_orIfNoRule, if_neg hne]
  · exact hsum.elim

theorem reduce_quotient_additive {s : Sign} (hsign : r.Unsigned) {l₁ l₂ : Expr}
    (hl : (additive s l₁ l₂).reduce = .ok p) (hr : r.reduce = .ok q) :
    (scaling .div (additive s l₁ l₂) r).reduce =
      Attempt.joined s (p = q) (scaling .div l₁ r).reduce (scaling .div l₂ r).reduce := by
  rw [reduce, distribute, hl, hr, ok_bind, ok_bind]
  · rfl
  · exact hsign

/-- How the quotient by a divisor that reduces to `q` comes about. A numerator is divided as a whole
or side by side, and a plain term may have to wait for the divisor to be reduced to a term. Along
with it go the reduced numerator, the sum over which the quotient is distributed and the outcome. -/
inductive DividedBy (b : Expr) (q : TermSum) :
    Expr → TermSum → TermSum → Attempt TermSum → Prop where
  | whole {a : Expr} {p : TermSum} (ha : a.reduce = .ok p)
      (hside : ∀ t, .term t ∈ a.sides → b.DividesTerms q) : DividedBy b q a p p (p.div q)
  | withheld (t : Term) (h : ¬b.DividesTerms q) :
      DividedBy b q (.term t) (.term t) (.term t) (.error .noRule)
  | apart (s : Sign) {l r : Expr} {p₁ p₂ d₁ d₂ : TermSum} {x y : Attempt TermSum}
      (hl : DividedBy b q l p₁ d₁ x) (hr : DividedBy b q r p₂ d₂ y) :
      DividedBy b q (.additive s l r) (p₁.unite s p₂) (.join s d₁ d₂)
        (.joined s (p₁.unite s p₂ = q) x y)

theorem exists_dividedBy (ha : a.reduce = .ok p) (hb : b.reduce = .ok q) :
    ∃ d, a.dividend b = .ok d ∧ DividedBy b q a p d (scaling .div a b).reduce := by
  rcases signed_or_unsigned b with ⟨op, operand, rfl⟩ | hsign
  · have hwhole := reduce_quotient_of_operands ha hb (fun _ _ => False.elim)
      fun _ hsign => hsign op operand rfl
    rw [hwhole, dividend_signed]
    exact ⟨p, ha, .whole ha fun _ _ => False.elim⟩
  induction a using sidesInduction generalizing p with
  | additive s l r ihl ihr =>
    obtain ⟨p₁, p₂, hp₁, hp₂, rfl⟩ := reduce_additive_eq_ok ha
    obtain ⟨d₁, hd₁, hl⟩ := ihl hp₁
    obtain ⟨d₂, hd₂, hr⟩ := ihr hp₂
    rw [reduce_quotient_additive hsign ha hb]
    exact ⟨.join s d₁ d₂, (dividend_additive_eq_ok hsign).mpr ⟨d₁, d₂, hd₁, hd₂, rfl⟩,
      .apart s hl hr⟩
  | other a hother =>
    have hsum := not_isSum_iff.mpr hother
    refine ⟨p, (dividend_of_not_additive hother b).trans ha, ?_⟩
    by_cases hterm : ∀ t, .term t ∈ a.sides → b.DividesTerms q
    · have hwhole := reduce_quotient_of_operands ha hb
        (fun t ht => hterm t (by rw [sides_of_not_isSum hsum, ht]; exact List.mem_cons_self))
        fun h => absurd h hsum
      rw [hwhole]
      exact .whole ha hterm
    · obtain ⟨t, ht⟩ := not_forall.mp hterm
      obtain ⟨hmem, hb'⟩ := Classical.not_imp.mp ht
      rw [sides_of_not_isSum hsum, List.mem_singleton] at hmem
      subst hmem
      rw [reduce] at ha
      obtain rfl := Except.ok.inj ha
      rw [reduce_quotient_of_not_dividesTerms hb hb' t]
      exact .withheld t hb'

namespace DividedBy

variable {x : Attempt TermSum} (h : DividedBy b q a p d x)
include h

/-- Every name of the numerator shows in the sum over which the quotient is distributed. -/
theorem mem_names_iff {name : String} : name ∈ d.names ↔ name ∈ p.names := by
  induction h with
  | whole ha hside => exact Iff.rfl
  | withheld t h => exact Iff.rfl
  | apart s hl hr ihl ihr =>
    rw [TermSum.mem_names_unite, TermSum.names, List.mem_append, ihl, ihr]

/-- A zero whose terms unite is met by the first summand of the numerator. -/
theorem eq_zeroDivision (hq : q.united = .term u) (hu : u.weight = 0)
    (hside : ∀ t, a.sides.head? = some (.term t) → b.DividesTerms q) :
    x = .error (d.leading.zeroDivision u) := by
  induction h with
  | whole ha _ => exact TermSum.div_zero hq hu _
  | withheld t h => exact absurd (hside t rfl) h
  | @apart s l r p₁ p₂ d₁ d₂ x y hl hr ihl ihr =>
    rw [head?_sides_additive] at hside
    rw [ihl hside]
    apply Attempt.joined_zeroDivision
    rintro rfl
    apply TermSum.sameNames_leading hq
    intro name hname
    rw [TermSum.mem_names_unite, ← hl.mem_names_iff]
    exact Or.inl (TermSum.mem_names_of_leading hname)

theorem isTally (hzero : q.laurent = 0) (hx : x = .ok m) : m.IsTally ∧ p.laurent = 0 := by
  induction h generalizing m with
  | whole ha _ => exact TermSum.isTally_of_div hzero hx
  | withheld t h => cases hx
  | apart s hl hr ihl ihr =>
    rcases Attempt.joined_eq_ok hx with ⟨m₁, m₂, hm₁, hm₂, rfl⟩ | ⟨heq, rfl⟩
    · obtain ⟨htallyLeft, hlaurentLeft⟩ := ihl hm₁
      obtain ⟨htallyRight, hlaurentRight⟩ := ihr hm₂
      refine ⟨TermSum.isTally_join s htallyLeft htallyRight, ?_⟩
      rw [TermSum.laurent_unite, hlaurentLeft, hlaurentRight, Sign.combine_zero]
    · rw [heq]
      exact ⟨TermSum.isTally_one, hzero⟩

/-- Nothing but a missing rule gets in the way of a quotient, and a divisor whose terms unite. -/
theorem meets : x.Meets fun o => o = .noRule ∨ q.united.IsTerm ∧ ∃ n, o = .divisionByZero n := by
  induction h with
  | @whole a p ha _ =>
    by_cases hq : q.united.IsTerm
    · exact TermSum.meets_div (Or.inl rfl) (fun _ _ _ n => Or.inr ⟨hq, n, rfl⟩) p
    · exact (TermSum.meets_div_of_not_isTerm hq p).mono fun _ => Or.inl
  | withheld t h => exact Attempt.meets_error (Or.inl rfl)
  | apart s hl hr ihl ihr => exact ihl.joined (Or.inl rfl) ihr

end DividedBy

/-- A zero in the denominator whose terms unite is met by the first summand of the numerator: the
quotient divides by zero, or has no rule if the two have different names. For that, a sum in the
denominator has to be a single term already where the numerator begins with a plain term. Nothing
else divides by zero but such a zero, and there is no quotient by a single term at all; by any other
zero there is one only of zero, and it is a tally of equal operands. -/
theorem reduce_quotient_by_zero (ha : a.reduce = .ok p) (hb : b.reduce = .ok q)
    (hzero : q.laurent = 0) :
    ∃ d, a.dividend b = .ok d ∧
      (∀ u, q.united = .term u →
        (∀ t, a.sides.head? = some (.term t) → b.DividesTerms q) →
          (scaling .div a b).reduce = .error (d.leading.zeroDivision u)) ∧
      (∀ o, (scaling .div a b).reduce = .error o →
        o = .noRule ∨ q.united.IsTerm ∧ ∃ n, o = .divisionByZero n) ∧
      (∀ m, (scaling .div a b).reduce = .ok m → ¬q.IsTerm ∧ m.IsTally ∧ p.laurent = 0) := by
  obtain ⟨d, hd, h⟩ := exists_dividedBy ha hb
  have hmet : ∀ u, q.united = .term u →
      (∀ t, a.sides.head? = some (.term t) → b.DividesTerms q) →
        (scaling .div a b).reduce = .error (d.leading.zeroDivision u) := by
    intro u hu hside
    exact h.eq_zeroDivision hu ((TermSum.laurent_eq_zero_iff hu).mp hzero) hside
  refine ⟨d, hd, hmet, h.meets, fun m hm => ⟨fun hterm => ?_, h.isTally hzero hm⟩⟩
  obtain ⟨u, rfl⟩ := TermSum.isTerm_iff.mp hterm
  have herror := hmet u rfl fun _ _ _ => hterm
  rw [hm] at herror
  cases herror

set_option maxRecDepth 20000 in
theorem reduce_quotient_by_zero_like_terms :
    (scaling .div (additive .plus (.term (.monomial "x" 3 1)) (number 1))
      (additive .minus (.term (.named "x")) (.term (.named "x")))).reduce =
        .error (.divisionByZero 3) ∧
    (scaling .div (.term (.named "y"))
      (additive .minus (.term (.named "x")) (.term (.named "x")))).reduce = .error .noRule := by
  have hzero : (additive .minus (.term (.named "x")) (.term (.named "x"))).reduce =
      .ok (.term (.monomial "x" 0 1)) := by cbv
  have hsum : (additive .plus (.term (.monomial "x" 3 1)) (number 1)).reduce =
      .ok (.join .plus (.term (.monomial "x" 3 1)) (.number 1)) := by cbv
  have hdividend : (additive .plus (.term (.monomial "x" 3 1)) (number 1)).dividend
      (additive .minus (.term (.named "x")) (.term (.named "x"))) =
        .ok (.join .plus (.term (.monomial "x" 3 1)) (.number 1)) := by cbv
  have hterm : (Expr.term (.named "y")).reduce = .ok (.term (.named "y")) := by rw [reduce]
  have hdividend' : (Expr.term (.named "y")).dividend
      (additive .minus (.term (.named "x")) (.term (.named "x"))) = .ok (.term (.named "y")) := by
    cbv
  have hlaurent : (TermSum.term (.monomial "x" 0 1)).laurent = 0 :=
    Term.laurent_eq_zero_iff.mpr rfl
  obtain ⟨d, hd, hmet, -⟩ := reduce_quotient_by_zero hsum hzero hlaurent
  obtain ⟨f, hf, hmissed, -⟩ := reduce_quotient_by_zero hterm hzero hlaurent
  obtain rfl := Except.ok.inj (hdividend.symm.trans hd)
  obtain rfl := Except.ok.inj (hdividend'.symm.trans hf)
  exact ⟨hmet _ rfl fun _ _ _ => trivial, hmissed _ rfl fun _ _ _ => trivial⟩

set_option maxRecDepth 20000 in
/-- There may be no rule for a quotient by zero, and equal operands may have one. -/
theorem reduce_quotients_by_unmet_zeros :
    (∃ p q, (Expr.term (.named "x")).reduce = .ok p ∧
      (additive .minus (.term (.named "y")) (.term (.named "y"))).reduce = .ok q ∧ q.laurent = 0 ∧
      (scaling .div (.term (.named "x"))
        (additive .minus (.term (.named "y")) (.term (.named "y")))).reduce = .error .noRule) ∧
    (∃ q, (additive .minus (additive .minus (additive .plus (.term (.named "x")) (number 1))
        (.term (.named "x"))) (number 1)).reduce = .ok q ∧ q.laurent = 0 ∧
      (scaling .div
        (additive .minus (additive .minus (additive .plus (.term (.named "x")) (number 1))
          (.term (.named "x"))) (number 1))
        (additive .minus (additive .minus (additive .plus (.term (.named "x")) (number 1))
          (.term (.named "x"))) (number 1))).reduce = .ok (.number 1)) ∧
    (evaluate 600 false "x / (y - y)").outcome = .ok "x / (y - y)" ∧
    (evaluate 600 false "(x + 1 - x - 1) / (x + 1 - x - 1)").outcome = .ok "1" := by
  refine ⟨⟨.term (.named "x"), .term (.monomial "y" 0 1), ?_, ?_, ?_, ?_⟩,
    ⟨.join .minus (.join .minus (.join .plus (.term (.named "x")) (.number 1))
      (.term (.named "x"))) (.number 1), ?_, ?_, ?_⟩, ?_, ?_⟩
  · cbv
  · cbv
  · exact Term.laurent_eq_zero_iff.mpr rfl
  · cbv
  · cbv
  · simp [TermSum.laurent, TermSum.value, Sign.combine, Term.value]
  all_goals cbv

end Expr

end LaurentCalc
