import LaurentCalc.Proofs.CanonicalMeaning
import LaurentCalc.Proofs.LaurentReading

/-!
# Results are fixed points

Evaluating a result gives the result again. A canonical text is read as its canonical
phrase; either that reduces to a sum of the same polynomial, whose text is the same,
or no rule applies to a negative exponent in it and the text is echoed.
-/

namespace LaurentCalc

set_option autoImplicit false

theorem Collected.reading_phrase (c : Collected) :
    Laurent.reading.value c.phrase = c.value Laurent.quantity := by
  rw [value_phrase Laurent.power_unit, value_eq_shown_add_total]
  rfl

/-- A canonical phrase that reduces, reduces to a sum of the same polynomial. -/
theorem TermSum.laurent_of_reduce_phrase {p q : TermSum}
    (h : p.collected.phrase.reduce = .ok q) : q.laurent = p.laurent := by
  rw [laurent_eq_of_reduce Laurent.power Laurent.power_natCast p.collected.divisors_phrase h]
  exact p.collected.reading_phrase.trans (value_collected p)

/-- A canonical text of names that can be spelled evaluates to itself. -/
theorem evaluate_render {p : TermSum} (hp : p.Over Spelled) {limit : Nat} (debug : Bool)
    (hlimit : p.render.length ≤ limit) :
    (evaluate limit debug p.render).outcome = .ok p.render := by
  have hparse : Expr.parseWithin limit p.render = .ok p.collected.phrase :=
    (Collected.writes_phrase (TermSum.name_of_mem_collected hp)).parseWithin_eq_ok hlimit
  rw [outcome_evaluate_of_parse hparse, Expr.simplify]
  cases hreduce : p.collected.phrase.reduce with
  | ok q => exact congrArg Except.ok (TermSum.render_eq_of_laurent_eq
      (TermSum.laurent_of_reduce_phrase hreduce))
  | error o =>
    obtain rfl := p.collected.gentle_reduce_phrase o hreduce
    rfl

/-- Evaluating a result gives the same result, unless the limit is less than its length and
exceeded. -/
theorem evaluate_result {limit : Nat} {debug : Bool} {text result : String}
    (h : (evaluate limit debug text).outcome = .ok result) (limit' : Nat) (debug' : Bool) :
    (evaluate limit' debug' result).outcome = .ok result ∨
      (evaluate limit' debug' result).outcome = .error .nestedTooDeeply ∧
        limit' < result.length := by
  obtain ⟨e, hparse, hresult⟩ := parse_of_outcome_evaluate h
  unfold Evaluation.ofSimplified at hresult
  split at hresult
  · next p hsimplify =>
    obtain rfl := Except.ok.inj hresult
    have hreduce := Expr.simplify_eq_ok_iff.mp hsimplify
    have hspelled := Expr.over_reduce (Expr.written_of_parse_eq_ok hparse).over hreduce
    exact evaluate_limit limit' debug' (evaluate_render hspelled debug' (Nat.le_refl _))
  · obtain rfl := Except.ok.inj hresult
    exact evaluate_limit limit' debug' h
  · cases hresult

set_option maxRecDepth 20000 in
theorem evaluate_result_negative_exponent :
    (evaluate 600 false "1/x-2*y").outcome = .ok "x^-1 - 2*y" ∧
      (evaluate 600 true "x^-1 - 2*y").outcome = .ok "x^-1 - 2*y" := by
  have hresult : (evaluate 600 false "1/x-2*y").outcome = .ok "x^-1 - 2*y" := by cbv
  exact ⟨hresult, (evaluate_result hresult 600 true).resolve_right
    fun hdeep => absurd hdeep.2 (by decide)⟩

end LaurentCalc
