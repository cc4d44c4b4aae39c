import LaurentCalc.Proofs.FixedPoint
import Mathlib.Algebra.MvPolynomial.Basic

/-!
# Canonical texts of polynomials

An expression without quotients stands for a polynomial. Among the expressions that
reduce, two have the same canonical text if and only if they stand for the same
polynomial.
-/

namespace LaurentCalc

set_option autoImplicit false

noncomputable section

open MvPolynomial

/-- The integer polynomial that an expression without quotients stands for. An exponent counts by
its constant term; where it is negative the power has no polynomial and counts as one, and
quotients and unknown operators count as zero. -/
def Expr.polynomial : Expr → MvPolynomial String Int
  | .term (.number n) => C n
  | .term (.monomial x c e) => C c * X x ^ e.toNat
  | .unary (.sign .plus) e => e.polynomial
  | .unary (.sign .minus) e => -e.polynomial
  | .unary (.unknown _) _ => 0
  | .binary (.additive s) l r => s.combine l.polynomial r.polynomial
  | .binary (.scaling .mul) l r => l.polynomial * r.polynomial
  | .binary (.scaling .div) _ _ => 0
  | .binary .power l r => l.polynomial ^ (constantCoeff r.polynomial).toNat
  | .binary (.unknown _) _ _ => 0

def Term.Entire : Term → Prop
  | .number _ => True
  | .monomial _ _ e => 0 ≤ e

def Expr.Entire : Expr → Prop
  | .term t => t.Entire
  | .unary _ e => e.Entire
  | .binary _ l r => l.Entire ∧ r.Entire

theorem Expr.Written.entire {e : Expr} (h : e.Written) : e.Entire := by
  induction e with
  | term t =>
    cases t with
    | number n => trivial
    | monomial x c e =>
      obtain ⟨_, _, rfl⟩ := h
      exact Int.one_nonneg
  | unary op e ih => exact ih h
  | binary op l r ihl ihr => exact ⟨ihl h.1, ihr h.2⟩

namespace Laurent

def exponents : (String →₀ Nat) →+ (String →₀ Int) :=
  Finsupp.mapRange.addMonoidHom (Nat.castAddMonoidHom Int)

theorem exponents_injective : Function.Injective exponents :=
  Finsupp.mapRange_injective _ Nat.cast_zero Nat.cast_injective

def ofPolynomial : MvPolynomial String Int →+* Laurent :=
  AddMonoidAlgebra.mapDomainRingHom Int exponents

theorem ofPolynomial_injective : Function.Injective ofPolynomial :=
  AddMonoidAlgebra.mapDomain_injective exponents_injective

theorem ofPolynomial_C (n : Int) : ofPolynomial (C n) = (n : Laurent) := by
  rw [← map_intCast ofPolynomial n]
  exact congrArg ofPolynomial (eq_intCast C n)

theorem ofPolynomial_X (x : String) : ofPolynomial (X x) = quantity x := by
  have hsingle : exponents (Finsupp.single x 1) = Finsupp.single x 1 := by
    simp [exponents]
  rw [← zpow_one (quantity x), coe_quantity_zpow, ← hsingle]
  exact AddMonoidAlgebra.mapDomain_single

theorem coeff_ofPolynomial_zero (q : MvPolynomial String Int) :
    (ofPolynomial q).coeff 0 = constantCoeff q := by
  have hcoeff := Finsupp.mapDomain_apply exponents_injective (AddMonoidAlgebra.coeff q) 0
  rw [map_zero] at hcoeff
  exact hcoeff

theorem ofPolynomial_combine (s : Sign) (p q : MvPolynomial String Int) :
    ofPolynomial (s.combine p q) = s.combine (ofPolynomial p) (ofPolynomial q) := by
  cases s with
  | plus => exact map_add ofPolynomial p q
  | minus => exact map_sub ofPolynomial p q

/-- Laurent polynomials, where a power with a negative exponent counts as one. -/
def polynomialReading : Interpretation Laurent :=
  interpretation (fun a n => a ^ n.toNat) fun a n => by rw [Int.toNat_natCast]

/-- A tree without quotients and negative exponents has the same value in either reading. -/
theorem value_polynomialReading {e : Expr} (hentire : e.Entire) (hdivisors : e.divisors = []) :
    polynomialReading.value e = ofPolynomial e.polynomial := by
  induction e with
  | term t =>
    cases t with
    | number n => exact (ofPolynomial_C n).symm
    | monomial x c e =>
      obtain ⟨k, rfl⟩ := Int.eq_ofNat_of_zero_le hentire
      rw [Expr.polynomial, map_mul, map_pow, ofPolynomial_C, ofPolynomial_X,
        Interpretation.value, Term.value, Int.toNat_natCast, zpow_natCast, Units.val_pow_eq_pow_val]
      rfl
  | unary op e ih =>
    cases op with
    | sign s =>
      cases s with
      | plus => exact ih hentire hdivisors
      | minus => rw [Expr.polynomial, map_neg, Interpretation.value, ih hentire hdivisors]
    | unknown symbol => exact (map_zero ofPolynomial).symm
  | binary op l r ihl ihr =>
    obtain ⟨hl, hr⟩ := Expr.divisors_binary_eq_nil hdivisors
    have hvalueLeft := ihl hentire.1 hl
    have hvalueRight := ihr hentire.2 hr
    cases op with
    | additive s =>
      rw [Expr.polynomial, ofPolynomial_combine, Interpretation.value, hvalueLeft, hvalueRight]
    | scaling s =>
      cases s with
      | mul => rw [Expr.polynomial, map_mul, Interpretation.value, hvalueLeft, hvalueRight]
      | div => cases hdivisors
    | power =>
      rw [Expr.polynomial, map_pow, Interpretation.value, hvalueLeft, hvalueRight,
        ← coeff_ofPolynomial_zero]
      rfl
    | unknown symbol => exact (map_zero ofPolynomial).symm

end Laurent

theorem TermSum.laurent_eq_of_entire {e : Expr} {p : TermSum} (hentire : e.Entire)
    (hdivisors : e.divisors = []) (h : e.reduce = .ok p) :
    p.laurent = Laurent.ofPolynomial e.polynomial :=
  (laurent_eq_of_reduce _ _ hdivisors h).trans (Laurent.value_polynomialReading hentire hdivisors)

theorem TermSum.laurent_eq_ofPolynomial {e : Expr} {p : TermSum} (hwritten : e.Written)
    (hdivisors : e.divisors = []) (h : e.reduce = .ok p) :
    p.laurent = Laurent.ofPolynomial e.polynomial :=
  laurent_eq_of_entire hwritten.entire hdivisors h

/-- The canonical text determines the polynomial, since it is read as a phrase for it. -/
theorem TermSum.render_eq_iff {p q : TermSum} (hp : p.Over Spelled) (hq : q.Over Spelled) :
    p.render = q.render ↔ p.laurent = q.laurent := by
  constructor
  · intro h
    have hreadLeft := (Collected.writes_phrase (name_of_mem_collected hp)).parseWithin_eq_ok
      (Nat.le_refl _)
    have hreadRight := (Collected.writes_phrase (name_of_mem_collected hq)).parseWithin_eq_ok
      (Nat.le_refl _)
    change p.collected.text = q.collected.text at h
    rw [h, hreadRight] at hreadLeft
    have hphrase := congrArg Laurent.reading.value (Except.ok.inj hreadLeft)
    rw [Collected.reading_phrase, Collected.reading_phrase, value_collected, value_collected]
      at hphrase
    exact hphrase.symm
  · exact render_eq_of_laurent_eq

/-- Two texts without quotients that reduce have the same result if and only if they stand for the
same polynomial. -/
theorem evaluate_eq_iff_polynomial_eq {limit limit' : Nat} {debug debug' : Bool}
    {text text' : String} {e e' : Expr} {p p' : TermSum}
    (hparse : Expr.parseWithin limit text = .ok e)
    (hparse' : Expr.parseWithin limit' text' = .ok e')
    (hdivisors : e.divisors = []) (hdivisors' : e'.divisors = [])
    (hsimplify : e.simplify = .ok p) (hsimplify' : e'.simplify = .ok p') :
    (evaluate limit debug text).outcome = (evaluate limit' debug' text').outcome ↔
      e.polynomial = e'.polynomial := by
  have hwritten := Expr.written_of_parse_eq_ok (Expr.parseWithin_eq_ok_iff.mp hparse).1
  have hwritten' := Expr.written_of_parse_eq_ok (Expr.parseWithin_eq_ok_iff.mp hparse').1
  have hreduce := Expr.simplify_eq_ok_iff.mp hsimplify
  have hreduce' := Expr.simplify_eq_ok_iff.mp hsimplify'
  rw [outcome_evaluate_of_simplify hparse hsimplify,
    outcome_evaluate_of_simplify hparse' hsimplify', Except.ok.injEq,
    TermSum.render_eq_iff (Expr.over_reduce hwritten.over hreduce)
      (Expr.over_reduce hwritten'.over hreduce'),
    TermSum.laurent_eq_ofPolynomial hwritten hdivisors hreduce,
    TermSum.laurent_eq_ofPolynomial hwritten' hdivisors' hreduce',
    Laurent.ofPolynomial_injective.eq_iff]

set_option maxRecDepth 20000 in
theorem evaluate_eq_of_expanded_product :
    (evaluate 600 false "x*(x+2)").outcome = (evaluate 600 true "2*x+x^2").outcome := by
  have hparse : Expr.parseWithin 600 "x*(x+2)" = .ok (.scaling .mul (.term (.named "x"))
      (.additive .plus (.term (.named "x")) (.number 2))) := by cbv
  have hparse' : Expr.parseWithin 600 "2*x+x^2" = .ok (.additive .plus
      (.scaling .mul (.number 2) (.term (.named "x")))
      (.binary .power (.term (.named "x")) (.number 2))) := by cbv
  have hsimplify : (Expr.scaling .mul (.term (.named "x"))
      (.additive .plus (.term (.named "x")) (.number 2))).simplify =
      .ok (.join .plus (.term (.monomial "x" 1 2)) (.term (.monomial "x" 2 1))) := by cbv
  have hsimplify' : (Expr.additive .plus (.scaling .mul (.number 2) (.term (.named "x")))
      (.binary .power (.term (.named "x")) (.number 2))).simplify =
      .ok (.join .plus (.term (.monomial "x" 2 1)) (.term (.monomial "x" 1 2))) := by cbv
  refine (evaluate_eq_iff_polynomial_eq hparse hparse' rfl rfl hsimplify hsimplify').mpr ?_
  have htwo : Int.toNat 2 = 2 := rfl
  simp only [Expr.polynomial, Term.named, Sign.combine, constantCoeff_C, Int.toNat_one, htwo,
    map_one, one_mul]
  ring

end

end LaurentCalc
