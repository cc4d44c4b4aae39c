import LaurentCalc.Proofs.DistributedValue
import LaurentCalc.Proofs.Limit

/-!
# Constant expressions

Constant expressions evaluated bottom-up over the integers, with truncated quotients.
The calculator comes to the same integer as long as taking numerators apart changes
no quotient and every exponent reduces to one number.
-/

namespace LaurentCalc

set_option autoImplicit false

namespace Expr

/-- The bottom-up value of an expression over the integers; nothing if there is a name in it. -/
def truncatedValue : Expr → Option Int
  | .term (.number n) => some n
  | .term (.monomial ..) => none
  | .unary (.sign .plus) e => e.truncatedValue
  | .unary (.sign .minus) e => e.truncatedValue.map fun a => -a
  | .unary (.unknown _) _ => none
  | .binary op l r => do
    let a ← l.truncatedValue
    let b ← r.truncatedValue
    op.truncated? a b

/-- The expression reduces to a single number. -/
def Collapses (e : Expr) : Prop := ∃ n, e.reduce = .ok (.number n)

/-- The truncated quotients of the pieces add up to the truncated quotient of the numerator. -/
def DividesEvenly (l r : Expr) : Prop :=
  ∃ vs, numeratorPieces r l = some vs ∧ ∀ a b, l.truncatedValue = some a →
    r.truncatedValue = some b → (vs.map (·.tdiv b)).sum = a.tdiv b

/-- Every numerator divides evenly, and every exponent reduces to a single number. -/
def Steady : Expr → Prop
  | .term _ => True
  | .unary _ e => e.Steady
  | .binary op l r =>
    l.Steady ∧ r.Steady ∧ (op = .scaling .div → DividesEvenly l r) ∧ (op = .power → r.Collapses)

variable {e l r : Expr} {op : BinaryOp} {n : Int}

theorem truncatedValue_binary_eq_some :
    (binary op l r).truncatedValue = some n ↔ ∃ a b, l.truncatedValue = some a ∧
      r.truncatedValue = some b ∧ op.truncated? a b = some n := by
  simp [truncatedValue, Option.bind_eq_some_iff]

/-- Without distortion both evaluations agree. -/
theorem distributedValue_of_steady (hsteady : e.Steady) (h : e.truncatedValue = some n) :
    e.distributedValue = some n := by
  induction e generalizing n with
  | term t =>
    cases t with
    | number m => exact h
    | monomial x c k => cases h
  | unary op e ih =>
    cases op with
    | sign s =>
      cases s with
      | plus => exact ih hsteady h
      | minus =>
        obtain ⟨a, ha, rfl⟩ := Option.map_eq_some_iff.mp h
        rw [distributedValue, ih hsteady ha, Option.map_some]
    | unknown symbol => cases h
  | binary op l r ihl ihr =>
    obtain ⟨hl, hr, hdivides, hcollapses⟩ := hsteady
    obtain ⟨a, b, ha, hb, hop⟩ := truncatedValue_binary_eq_some.mp h
    refine distributedValue_binary_eq_some.mpr ⟨a, b, ihl hl ha, ihr hr hb, ?_⟩
    cases op with
    | additive s => exact hop
    | scaling s =>
      cases s with
      | mul => exact hop
      | div =>
        obtain ⟨vs, hvs, heven⟩ := hdivides rfl
        simp only [BinaryOp.truncated?] at hop
        split at hop
        · cases hop
        · next hzero =>
          rw [distributed?, if_neg hzero, hvs, Option.map_some, heven a b ha hb]
          exact hop
    | power =>
      obtain ⟨k, hk⟩ := hcollapses rfl
      simp only [distributed?, hk]
      exact hop
    | unknown symbol => cases hop

end Expr

/-- A constant text evaluates to its bottom-up integer value, as long as every numerator divides
evenly and every exponent reduces to a single number. -/
theorem evaluate_constant {limit : Nat} {debug : Bool} {text : String} {e : Expr} {n : Int}
    (hparse : Expr.parseWithin limit text = .ok e) (hvalue : e.truncatedValue = some n)
    (hsteady : e.Steady) : (evaluate limit debug text).outcome = .ok n.repr := by
  obtain ⟨p, hp, hconstant, rfl⟩ :=
    Expr.gives_reduce (Expr.distributedValue_of_steady hsteady hvalue)
  rw [outcome_evaluate_of_simplify hparse (Expr.simplify_eq_ok_iff.mpr hp), hconstant.render_eq]

set_option maxRecDepth 20000 in
theorem evaluate_constant_even_quotients :
    (evaluate 600 false "(4+6)/2-7/2^(1+1)*3").outcome = .ok "2" := by
  have hparse : Expr.parseWithin 600 "(4+6)/2-7/2^(1+1)*3" = .ok (.additive .minus
      (.scaling .div (.additive .plus (.number 4) (.number 6)) (.number 2))
      (.scaling .mul
        (.scaling .div (.number 7)
          (.binary .power (.number 2) (.additive .plus (.number 1) (.number 1))))
        (.number 3))) := by cbv
  have hsum : Expr.DividesEvenly (.additive .plus (.number 4) (.number 6)) (.number 2) := by
    refine ⟨[4, 6], rfl, fun a b ha hb => ?_⟩
    obtain rfl : 10 = a := Option.some.inj ha
    obtain rfl : 2 = b := Option.some.inj hb
    rfl
  have hseven : Expr.DividesEvenly (.number 7)
      (.binary .power (.number 2) (.additive .plus (.number 1) (.number 1))) := by
    refine ⟨[7], rfl, fun a b ha hb => ?_⟩
    obtain rfl : 7 = a := Option.some.inj ha
    obtain rfl : 4 = b := Option.some.inj hb
    rfl
  have hexponent : Expr.Collapses (.additive .plus (.number 1) (.number 1)) := ⟨2, by cbv⟩
  refine evaluate_constant (n := 2) hparse rfl ?_
  simp [Expr.Steady, hsum, hseven, hexponent]

set_option maxRecDepth 20000 in
/-- Without these conditions the bottom-up value is missed: a sum is divided piece by piece, and an
exponent and the divisor of a number may remain sums for which there is no rule. -/
theorem evaluate_distorted :
    (∃ e, Expr.parseWithin 600 "(1+1)/2" = .ok e ∧ e.truncatedValue = some 1 ∧
      (evaluate 600 false "(1+1)/2").outcome = .ok "0") ∧
    (∃ e, Expr.parseWithin 600 "2^(2*(1+1))" = .ok e ∧ e.truncatedValue = some 16 ∧
      (evaluate 600 false "2^(2*(1+1))").outcome = .ok "2^(2*(1+1))") ∧
    (∃ e, Expr.parseWithin 600 "8/(2*(1+1)+1)" = .ok e ∧ e.truncatedValue = some 1 ∧
      (evaluate 600 false "8/(2*(1+1)+1)").outcome = .ok "8/(2*(1+1)+1)") := by
  refine ⟨⟨.scaling .div (.additive .plus (.number 1) (.number 1)) (.number 2), ?_, rfl, ?_⟩,
    ⟨.binary .power (.number 2)
      (.scaling .mul (.number 2) (.additive .plus (.number 1) (.number 1))), ?_, rfl, ?_⟩,
    ⟨.scaling .div (.number 8) (.additive .plus
      (.scaling .mul (.number 2) (.additive .plus (.number 1) (.number 1))) (.number 1)),
      ?_, rfl, ?_⟩⟩
  all_goals cbv

end LaurentCalc
