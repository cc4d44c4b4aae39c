import LaurentCalc.Proofs.Denominators
import LaurentCalc.Proofs.Interpretation
import Mathlib.Algebra.Group.UniqueProds.Basic
import Mathlib.Algebra.MonoidAlgebra.NoZeroDivisors

/-!
# Factors divided out again

A product with a single term is a sum whose coefficients are all multiples of the coefficient of
that term. Dividing it by the same term cuts nothing off, so it leads back to the polynomial that
was multiplied: Laurent polynomials have no zero divisors.
-/

namespace LaurentCalc

set_option autoImplicit false

namespace Recorded

variable {α β : Type} {x : Recorded α} {a : α}

theorem bind_of_ok (h : x.outcome = .ok a) (f : α → Recorded β) :
    x >>= f = ⟨x.divisions ++ (f a).divisions, (f a).outcome⟩ := by
  change x.andThen f = _
  rw [andThen, h]

theorem orIfNoRule_of_ok (h : x.outcome = .ok a) (y : Recorded α) : x.orIfNoRule y = x := by
  rw [orIfNoRule, h]

theorem Yields.orIfNoRule (h : x.Yields a) (y : Recorded α) : (x.orIfNoRule y).Yields a := by
  rwa [orIfNoRule_of_ok h.1]

theorem Yields.mapOutcome_map (h : x.Yields a) (f : α → β) :
    (x.mapOutcome (Except.map f)).Yields (f a) :=
  ⟨map_eq_ok_iff.mpr ⟨a, h.1, rfl⟩, h.2⟩

end Recorded

theorem yields_quotientRecorded {n d : Int} (hd : d ≠ 0) (hdvd : d ∣ n) :
    (quotientRecorded n d).Yields (n.tdiv d) :=
  ⟨if_neg hd, List.forall_mem_singleton.mpr hdvd⟩

/-- A multiple of a term is divided by it without a remainder. -/
theorem Term.exists_yields_divRecorded {m t v : Term} (hm : m.weight ≠ 0) (h : m.mul t = .ok v) :
    ∃ u, (v.divRecorded m).Yields u := by
  cases m with
  | number a =>
    have hquotient : ∀ b : Int, (quotientRecorded (b * a) a).Yields ((b * a).tdiv a) := fun b =>
      yields_quotientRecorded hm (Int.dvd_mul_left b a)
    cases t with
    | number b =>
      obtain rfl := Except.ok.inj h
      rw [Int.mul_comm]
      exact ⟨_, (hquotient b).mapOutcome_map _⟩
    | monomial y d f =>
      obtain rfl := Except.ok.inj h
      exact ⟨_, (hquotient d).mapOutcome_map _⟩
  | monomial x c e =>
    have hquotient : ∀ b : Int, (quotientRecorded (c * b) c).Yields ((c * b).tdiv c) := fun b =>
      yields_quotientRecorded hm (Int.dvd_mul_right c b)
    have hself : ∀ k f, (Term.monomial x k f).divRecorded (.monomial x c e) =
        (quotientRecorded k c).mapOutcome (Except.map (.monomial x · (f - e))) := fun _ _ =>
      if_pos rfl
    cases t with
    | number b =>
      obtain rfl := Except.ok.inj h
      rw [hself]
      exact ⟨_, (hquotient b).mapOutcome_map _⟩
    | monomial y d f =>
      rw [mul] at h
      split at h
      · obtain rfl := Except.ok.inj h
        rw [hself]
        exact ⟨_, (hquotient d).mapOutcome_map _⟩
      · cases h

namespace TermSum

variable {d q r : TermSum} {m : Term}

/-- A sum multiplied by a term is divided by it, leaf by leaf, without a remainder. -/
theorem exists_yields_divRecorded (hm : m.weight ≠ 0) (h : d.mul (.term m) = .ok q) :
    ∃ r, (q.divRecorded (.term m)).Yields r := by
  induction d generalizing q with
  | term t =>
    obtain ⟨v, hv, hq⟩ := bind_eq_ok_iff.mp h
    obtain rfl := Except.ok.inj hq
    obtain ⟨u, hu⟩ := Term.exists_yields_divRecorded hm hv
    exact ⟨.term u, Recorded.yields_bind_iff.mpr ⟨u, hu, Recorded.yields_pure_iff.mpr rfl⟩⟩
  | join s l r ihl ihr =>
    obtain ⟨l', hl, h⟩ := bind_eq_ok_iff.mp h
    obtain ⟨r', hr, hq⟩ := bind_eq_ok_iff.mp h
    obtain rfl := Except.ok.inj hq
    obtain ⟨l'', hl⟩ := ihl hl
    obtain ⟨r'', hr⟩ := ihr hr
    refine ⟨.join s l'' r'', Recorded.Yields.orIfNoRule ?_ _⟩
    exact Recorded.yields_bind_iff.mpr ⟨l'', hl, Recorded.yields_bind_iff.mpr
      ⟨r'', hr, Recorded.yields_pure_iff.mpr rfl⟩⟩

theorem laurent_mul (h : d.mul r = .ok q) : q.laurent = d.laurent * r.laurent := value_mul h

/-- What is multiplied by a term and divided by it exactly is the same polynomial again. -/
theorem laurent_eq_of_yields (hm : m.weight ≠ 0) (h : d.mul (.term m) = .ok q)
    (hr : (q.divRecorded (.term m)).Yields r) : r.laurent = d.laurent := by
  have hfactor : (TermSum.term m).laurent ≠ 0 := mt Term.laurent_eq_zero_iff.mp hm
  have hproduct : r.laurent * (TermSum.term m).laurent = q.laurent := value_divRecorded hr
  exact mul_right_cancel₀ hfactor (hproduct.trans (laurent_mul h))

end TermSum

namespace Expr

variable {e : Expr} {p q : TermSum} {m : Term}

/-- A product with a term is distributed over the same sum as a quotient by it. -/
theorem exists_dividend_of_reduce_mul (he : e.reduce = .ok p)
    (h : (scaling .mul e (.term m)).reduce = .ok q) :
    ∃ d, e.dividend (.term m) = .ok d ∧ d.mul (.term m) = .ok q := by
  have hsign : Unsigned (.term m) := fun _ _ => Expr.noConfusion
  induction e using sidesInduction generalizing p q with
  | additive s l r ihl ihr =>
    obtain ⟨p₁, p₂, hp₁, hp₂, -⟩ := reduce_additive_eq_ok he
    rw [reduce, distribute] at h
    · obtain ⟨q₁, hq₁, h⟩ := bind_eq_ok_iff.mp h
      obtain ⟨q₂, hq₂, hq⟩ := bind_eq_ok_iff.mp h
      obtain rfl := Except.ok.inj hq
      obtain ⟨d₁, hd₁, hmul₁⟩ := ihl hp₁ hq₁
      obtain ⟨d₂, hd₂, hmul₂⟩ := ihr hp₂ hq₂
      refine ⟨.join s d₁ d₂, (dividend_additive_eq_ok hsign).mpr ⟨d₁, d₂, hd₁, hd₂, rfl⟩, ?_⟩
      rw [TermSum.mul, hmul₁, hmul₂]
      rfl
    · exact hsign
  | other e hother =>
    have hm : (Expr.term m).reduce = .ok (.term m) := by rw [reduce]
    have hwhole : distributes .mul e (.term m) = false :=
      distributes_operands .mul (fun _ _ _ _ _ => Expr.noConfusion) hother
    rw [reduce_mul_of_not_distributes hwhole he hm] at h
    exact ⟨p, (dividend_of_not_additive hother (.term m)).trans he, h⟩

/-- A product is divided as it reduces, and no division is made but those of the operands and of the
resulting sums. -/
theorem reduceRecorded_product_divided {a b r : Expr} {p q m : TermSum}
    (hp : (scaling .mul a b).reduce = .ok p) (hq : r.reduce = .ok q)
    (hm : (p.divRecorded q).Yields m) :
    (scaling .div (scaling .mul a b) r).reduceRecorded =
      ⟨(scaling .mul a b).reduceRecorded.divisions ++
        (r.reduceRecorded.divisions ++ (p.divRecorded q).divisions), .ok m⟩ := by
  rw [← outcome_reduceRecorded] at hp hq
  have hdistribute : distributeRecorded .div (scaling .mul a b) r =
      ⟨(scaling .mul a b).reduceRecorded.divisions ++
        (r.reduceRecorded.divisions ++ (p.divRecorded q).divisions), .ok m⟩ := by
    rw [distributeRecorded, Recorded.bind_of_ok hp, Recorded.bind_of_ok hq,
      TermSum.scaleRecorded, hm.1]
    all_goals simp
  conv_lhs => rw [reduceRecorded, hdistribute]
  rfl

/-- Multiplying by a term and dividing by it changes no polynomial. All divisions made beyond those
of the product itself are exact, so that no truncation loses anything. -/
theorem reduce_product_divided (he : e.reduce = .ok p) (hm : m.weight ≠ 0)
    (hproduct : (scaling .mul e (.term m)).reduce = .ok q) :
    ∃ r divisions, (scaling .div (scaling .mul e (.term m)) (.term m)).reduce = .ok r ∧
      (scaling .div (scaling .mul e (.term m)) (.term m)).reduceRecorded.divisions =
        (scaling .mul e (.term m)).reduceRecorded.divisions ++ divisions ∧
      (∀ d ∈ divisions, d.Exact) ∧
      r.laurent = p.laurent ∧ r.render = p.render := by
  have hterm : (Expr.term m).reduce = .ok (.term m) := by rw [reduce]
  obtain ⟨d, hd, hmul⟩ := exists_dividend_of_reduce_mul he hproduct
  obtain ⟨d', hd', hlaurent⟩ := exists_dividend (.term m) he
  obtain rfl := Except.ok.inj (hd.symm.trans hd')
  obtain ⟨r, hr⟩ := TermSum.exists_yields_divRecorded hm hmul
  have hrecord := reduceRecorded_product_divided hproduct hterm hr
  have hsame : r.laurent = p.laurent := (TermSum.laurent_eq_of_yields hm hmul hr).trans hlaurent
  refine ⟨r, (q.divRecorded (.term m)).divisions, ?_, ?_, hr.2, hsame,
    TermSum.render_eq_of_laurent_eq hsame⟩
  · rw [← outcome_reduceRecorded, hrecord]
  · rw [hrecord, reduceRecorded]
    rfl

set_option maxRecDepth 20000 in
/-- What was cut off before the multiplication stays cut off, and nothing is lost after it. -/
theorem reduce_product_divided_negative_power :
    (scaling .div (.term (.monomial "x" 7 1)) (number 2)).reduce = .ok (.term (.monomial "x" 3 1)) ∧
    ∃ r, (scaling .div
        (scaling .mul
          (additive .minus (scaling .div (.term (.monomial "x" 7 1)) (number 2))
            (unary (.sign .minus) (number 3)))
          (.term (.monomial "x" (-2) (-1))))
        (.term (.monomial "x" (-2) (-1)))).reduce = .ok r ∧
      r.render = "3*x + 3" := by
  have hsum : (additive .minus (scaling .div (.term (.monomial "x" 7 1)) (number 2))
      (unary (.sign .minus) (number 3))).reduce =
        .ok (.join .minus (.term (.monomial "x" 3 1)) (.number (-3))) := by cbv
  have hproduct : (scaling .mul
      (additive .minus (scaling .div (.term (.monomial "x" 7 1)) (number 2))
        (unary (.sign .minus) (number 3)))
      (.term (.monomial "x" (-2) (-1)))).reduce =
        .ok (.join .minus (.term (.monomial "x" (-6) 0)) (.term (.monomial "x" 6 (-1)))) := by cbv
  have hweight : (Term.monomial "x" (-2) (-1)).weight ≠ 0 := by decide
  have hrender : (TermSum.join .minus (.term (.monomial "x" 3 1)) (.number (-3))).render =
      "3*x + 3" := by cbv
  obtain ⟨r, -, hr, -, -, -, hsame⟩ := reduce_product_divided hsum hweight hproduct
  exact ⟨by cbv, r, hr, hsame.trans hrender⟩

end Expr

end LaurentCalc
