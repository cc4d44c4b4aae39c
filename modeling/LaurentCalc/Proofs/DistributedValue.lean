import LaurentCalc.Proofs.Constants

/-!
# Constant expressions under distribution

The integer that reduction makes of a constant expression. Sums, products and powers
come out as over the integers, but a numerator is taken apart first and its pieces are
divided one by one.
-/

namespace LaurentCalc

set_option autoImplicit false

/-- An operation on integers, with truncated quotients; nothing for a division by zero, a negative
exponent and zero to the power zero. -/
def BinaryOp.truncated? : BinaryOp → Int → Int → Option Int
  | .additive s, a, b => some (s.apply a b)
  | .scaling .mul, a, b => some (a * b)
  | .scaling .div, a, b => if b = 0 then none else some (a.tdiv b)
  | .power, a, b => if b < 0 ∨ a = 0 ∧ b = 0 then none else some (a ^ b.toNat)
  | .unknown _, _, _ => none

theorem BinaryOp.truncated?_power_eq_some {a b n : Int}
    (h : BinaryOp.truncated? .power a b = some n) :
    0 ≤ b ∧ ¬(a = 0 ∧ b = 0) ∧ a ^ b.toNat = n := by
  simp only [truncated?] at h
  split at h
  · cases h
  · next hdefined =>
    rw [not_or] at hdefined
    exact ⟨Int.not_lt.mp hdefined.1, hdefined.2, Option.some.inj h⟩

namespace Expr

/-- The numbers in the sum to which an expression reduces. -/
def reducedNumbers (e : Expr) : Option (List Int) :=
  match e.reduce with
  | .ok p => some p.numbers
  | .error _ => none

/-- The numbers that are divided one by one where an expression stands over the given divisor. A sum
is taken apart before it reduces, unless the divisor is signed; and a term is not divided by a sum
that does not reduce to a term. -/
def numeratorPieces (divisor : Expr) : Expr → Option (List Int)
  | .binary (.additive s) x y =>
    match divisor with
    | .unary .. => reducedNumbers (.additive s x y)
    | _ => do
      let vs ← numeratorPieces divisor x
      let ws ← numeratorPieces divisor y
      return vs ++ ws.map (s.apply 0)
  | .term t =>
    match divisor with
    | .binary (.additive _) _ _ =>
      match divisor.reduce with
      | .ok (.term _) => some [t.weight]
      | _ => none
    | _ => some [t.weight]
  | l => reducedNumbers l

/-- An operation on the integers of two operands as reduction carries it out: numerators are divided
piece by piece, and an exponent has to reduce to a single number. -/
def distributed? (op : BinaryOp) (l r : Expr) (a b : Int) : Option Int :=
  match op with
  | .scaling .div =>
    if b = 0 then none else (numeratorPieces r l).map fun vs => (vs.map (·.tdiv b)).sum
  | .power =>
    match r.reduce with
    | .ok (.term (.number _)) => op.truncated? a b
    | _ => none
  | op => op.truncated? a b

/-- The integer that reduction makes of a constant expression. -/
def distributedValue : Expr → Option Int
  | .term (.number n) => some n
  | .term (.monomial ..) => none
  | .unary (.sign .plus) e => e.distributedValue
  | .unary (.sign .minus) e => e.distributedValue.map fun a => -a
  | .unary (.unknown _) _ => none
  | .binary op l r => do
    let a ← l.distributedValue
    let b ← r.distributedValue
    distributed? op l r a b

variable {e l r : Expr} {op : BinaryOp} {n a b : Int}

theorem distributedValue_binary_eq_some :
    (binary op l r).distributedValue = some n ↔ ∃ a b, l.distributedValue = some a ∧
      r.distributedValue = some b ∧ distributed? op l r a b = some n := by
  simp [distributedValue, Option.bind_eq_some_iff]

theorem numeratorPieces_additive {s : Sign} {x y : Expr} (hsign : ∀ op e, r = .unary op e → False) :
    numeratorPieces r (.additive s x y) = do
      let vs ← numeratorPieces r x
      let ws ← numeratorPieces r y
      return vs ++ ws.map (s.apply 0) := by
  cases r with
  | unary op e => exact absurd rfl (hsign op e)
  | term | binary => rfl

/-- A numerator that is not taken apart is divided as it reduces. -/
theorem numeratorPieces_eq_reducedNumbers
    (hsum : ∀ t a x y, l = .term t → r = .additive a x y → False)
    (hadditive : ∀ a x y, l = .additive a x y → False) :
    numeratorPieces r l = reducedNumbers l := by
  cases l with
  | term t =>
    have hreduced : reducedNumbers (.term t) = some [t.weight] := by
      rw [reducedNumbers, reduce]
      rfl
    rw [hreduced]
    cases r with
    | term u => rfl
    | unary op e => rfl
    | binary op x y =>
      cases op with
      | additive a => exact absurd rfl (hsum t a x y rfl)
      | scaling | power | unknown => rfl
  | unary op e => rfl
  | binary op x y =>
    cases op with
    | additive a => exact absurd rfl (hadditive a x y)
    | scaling | power | unknown => rfl

theorem sum_tdiv_append (s : Sign) (vs ws : List Int) (d : Int) :
    ((vs ++ ws.map (s.apply 0)).map (·.tdiv d)).sum =
      s.apply (vs.map (·.tdiv d)).sum (ws.map (·.tdiv d)).sum := by
  have hsigned : ((ws.map (s.apply 0)).map (·.tdiv d)).sum =
      s.apply 0 (ws.map (·.tdiv d)).sum := by
    induction ws with
    | nil => cases s <;> rfl
    | cons w ws ih =>
      cases s with
      | plus => simp only [List.map_cons, List.sum_cons, ih, Sign.apply, Int.zero_add]
      | minus =>
        simp only [List.map_cons, List.sum_cons, ih, Sign.apply, Int.zero_sub, Int.neg_tdiv,
          Int.neg_add]
  rw [List.map_append, List.sum_append, hsigned]
  cases s with
  | plus => simp only [Sign.apply, Int.zero_add]
  | minus =>
    simp only [Sign.apply, Int.zero_sub]
    exact (Int.sub_eq_add_neg).symm

theorem gives_number (n : Int) : Attempt.Gives (.ok (.number n)) n :=
  ⟨.number n, rfl, TermSum.constant_number n, rfl⟩

/-- The operands as they reduce, scaled by one another. -/
theorem gives_scale {s : Scaling} {p q : TermSum} (hp : p.Constant) (hq : q.Constant)
    (hpieces : s = .div → numeratorPieces r l = some p.numbers)
    (h : distributed? (.scaling s) l r p.constantValue q.constantValue = some n) :
    (TermSum.scale s p q).Gives n := by
  cases s with
  | mul =>
    obtain rfl := Option.some.inj h
    exact hp.gives_mul hq
  | div =>
    rw [distributed?, hpieces rfl] at h
    split at h
    · cases h
    · next hzero =>
      obtain rfl := Option.some.inj h
      exact hp.gives_div hq hzero

/-- A sum is scaled side by side, unless the other operand is signed. -/
theorem distributed?_scaling_additive {s : Scaling} {t : Sign} {x y : Expr} {c d : Int}
    (hsign : ∀ op e, r = .unary op e → False)
    (h : distributed? (.scaling s) (.additive t x y) r (t.apply c d) b = some n) :
    ∃ n₁ n₂, distributed? (.scaling s) x r c b = some n₁ ∧
      distributed? (.scaling s) y r d b = some n₂ ∧ t.apply n₁ n₂ = n := by
  cases s with
  | mul =>
    obtain rfl := Option.some.inj h
    refine ⟨c * b, d * b, rfl, rfl, ?_⟩
    cases t with
    | plus => exact (Int.add_mul c d b).symm
    | minus => exact (Int.sub_mul c d b).symm
  | div =>
    simp only [distributed?] at h ⊢
    split at h
    · cases h
    · next hzero =>
      obtain ⟨us, hus, rfl⟩ := Option.map_eq_some_iff.mp h
      rw [numeratorPieces_additive hsign] at hus
      obtain ⟨vs, hvs, hus⟩ := Option.bind_eq_some_iff.mp hus
      obtain ⟨ws, hws, hus⟩ := Option.bind_eq_some_iff.mp hus
      obtain rfl := Option.some.inj hus
      rw [if_neg hzero, if_neg hzero, hvs, hws]
      exact ⟨_, _, rfl, rfl, (sum_tdiv_append t vs ws b).symm⟩

/-- What remains of a power once base and exponent are reduced. -/
theorem gives_power {p : TermSum} {m : Int} {power : Expr} (hp : p.Constant) (hm : 0 ≤ m)
    (hzero : ¬(p.constantValue = 0 ∧ m = 0)) :
    Attempt.Gives
      (if m < 0 then .error .noRule
      else if m = 0 then
        if p.isZeroTerm then .error (.zeroToZero power) else .ok (.number 1)
      else p.power m.toNat) (p.constantValue ^ m.toNat) := by
  rw [if_neg (by omega)]
  by_cases hm' : m = 0
  · rw [if_pos hm', hm', if_neg]
    · rw [Int.toNat_zero, pow_zero]
      exact gives_number 1
    · intro hterm
      cases p with
      | join s l r => cases hterm
      | term t =>
        obtain ⟨k, rfl⟩ := hp.eq_number
        exact hzero ⟨of_decide_eq_true hterm, hm'⟩
  · rw [if_neg hm']
    exact hp.gives_power (by omega)

/-- Where an expression has a distributing value, it reduces to that integer. -/
def ReducesToValue (e : Expr) : Prop :=
  ∀ n, e.distributedValue = some n → e.reduce.Gives n

/-- Where a product or quotient has a distributing value, distribution alone comes to it. -/
def DistributesToValue (s : Scaling) (l r : Expr) : Prop :=
  ∀ n, (scaling s l r).distributedValue = some n → (distribute s l r).Gives n

theorem reducesToValue_additive (s : Sign) (hl : l.ReducesToValue) (hr : r.ReducesToValue) :
    (Expr.additive s l r).ReducesToValue := by
  intro n h
  obtain ⟨a, b, ha, hb, hop⟩ := distributedValue_binary_eq_some.mp h
  obtain ⟨p, hp, hconstant, rfl⟩ := hl a ha
  obtain ⟨q, hq, hconstant', rfl⟩ := hr b hb
  obtain rfl := Option.some.inj hop
  rw [reduce, hp, hq, ok_bind, ok_bind, pure_eq_ok]
  exact ⟨p.unite s q, rfl, TermSum.over_unite s hconstant hconstant',
    TermSum.constantValue_unite s p q⟩

theorem reducesToValue_power (hl : l.ReducesToValue) (hr : r.ReducesToValue) :
    (binary .power l r).ReducesToValue := by
  intro n h
  obtain ⟨a, b, ha, hb, hop⟩ := distributedValue_binary_eq_some.mp h
  obtain ⟨q, hq, hconstant, rfl⟩ := hr b hb
  obtain ⟨p, hp, hconstant', rfl⟩ := hl a ha
  simp only [distributed?, hq] at hop
  split at hop
  · next m heq =>
    obtain rfl := Except.ok.inj heq
    obtain ⟨hnonneg, hzero, rfl⟩ := BinaryOp.truncated?_power_eq_some hop
    rw [reduce, hq, ok_bind]
    simp only [hp, ok_bind]
    exact gives_power hconstant' hnonneg hzero
  · cases hop

theorem distributesToValue_terms (s : Scaling) (t u : Term) :
    DistributesToValue s (.term t) (.term u) := by
  intro n h
  obtain ⟨a, b, ha, hb, hop⟩ := distributedValue_binary_eq_some.mp h
  cases t with
  | monomial x c k => cases ha
  | number v =>
    cases u with
    | monomial x c k => cases hb
    | number w =>
      obtain rfl := Option.some.inj ha
      obtain rfl := Option.some.inj hb
      simp only [distribute]
      cases s with
      | mul =>
        obtain rfl := Option.some.inj hop
        exact gives_number (v * w)
      | div =>
        simp only [distributed?] at hop
        split at hop
        · cases hop
        · next hzero =>
          obtain rfl := Option.some.inj hop
          rw [Term.scale, Term.div_number hzero]
          exact ⟨.number (v.tdiv w), rfl, TermSum.constant_number _, (Int.add_zero _).symm⟩

/-- A factor in front of a sum is moved behind each of its sides. -/
theorem distributesToValue_term_mul_additive {t : Term} (a : Sign) {x y : Expr}
    (hx : (scaling .mul x (.term t)).ReducesToValue)
    (hy : (scaling .mul y (.term t)).ReducesToValue) :
    DistributesToValue .mul (.term t) (.additive a x y) := by
  intro n h
  obtain ⟨v, w, hv, hw, hop⟩ := distributedValue_binary_eq_some.mp h
  obtain ⟨c, d, hc, hd, hsum⟩ := distributedValue_binary_eq_some.mp hw
  obtain rfl := Option.some.inj hop
  obtain rfl := Option.some.inj hsum
  obtain ⟨p, hp, hconstant, hvalue⟩ :=
    hx (c * v) (distributedValue_binary_eq_some.mpr ⟨c, v, hc, hv, rfl⟩)
  obtain ⟨q, hq, hconstant', hvalue'⟩ :=
    hy (d * v) (distributedValue_binary_eq_some.mpr ⟨d, v, hd, hv, rfl⟩)
  simp only [distribute, hp, hq, ok_bind, pure_eq_ok]
  refine ⟨.join a p q, rfl, ⟨hconstant, hconstant'⟩, ?_⟩
  rw [TermSum.constantValue_join, hvalue, hvalue']
  cases a with
  | plus => simp only [Sign.apply]; ring
  | minus => simp only [Sign.apply]; ring

/-- A number is divided by a sum only where the sum reduces to a number. -/
theorem distributesToValue_term_div_additive (t : Term) {a : Sign} {x y : Expr}
    (hsum : (Expr.additive a x y).ReducesToValue) :
    DistributesToValue .div (.term t) (.additive a x y) := by
  intro n h
  obtain ⟨v, w, hv, hw, hop⟩ := distributedValue_binary_eq_some.mp h
  obtain ⟨q, hq, hconstant, rfl⟩ := hsum w hw
  cases t with
  | monomial x c k => cases hv
  | number m =>
    obtain rfl := Option.some.inj hv
    simp only [distributed?, numeratorPieces, hq] at hop
    split at hop
    · cases hop
    · next hzero =>
      cases q with
      | join s p q => cases hop
      | term u =>
        obtain ⟨k, rfl⟩ := hconstant.eq_number
        have hk : k ≠ 0 := hzero
        obtain rfl := Option.some.inj hop
        simp only [distribute, hq, ok_bind]
        rw [Term.div_number hk]
        exact ⟨.number (m.tdiv k), rfl, TermSum.constant_number _, (Int.add_zero _).symm⟩

theorem distributesToValue_additive {s : Scaling} {a : Sign} {x y : Expr}
    (hsign : ∀ op e, r = .unary op e → False)
    (hx : (scaling s x r).ReducesToValue) (hy : (scaling s y r).ReducesToValue) :
    DistributesToValue s (.additive a x y) r := by
  intro n h
  obtain ⟨v, w, hv, hw, hop⟩ := distributedValue_binary_eq_some.mp h
  obtain ⟨c, d, hc, hd, hsum⟩ := distributedValue_binary_eq_some.mp hv
  obtain rfl := Option.some.inj hsum
  obtain ⟨n₁, n₂, hn₁, hn₂, rfl⟩ := distributed?_scaling_additive hsign hop
  obtain ⟨p, hp, hconstant, rfl⟩ :=
    hx n₁ (distributedValue_binary_eq_some.mpr ⟨c, w, hc, hw, hn₁⟩)
  obtain ⟨q, hq, hconstant', rfl⟩ :=
    hy n₂ (distributedValue_binary_eq_some.mpr ⟨d, w, hd, hw, hn₂⟩)
  rw [distribute]
  · simp only [hp, hq, ok_bind, pure_eq_ok]
    exact ⟨.join a p q, rfl, ⟨hconstant, hconstant'⟩, TermSum.constantValue_join a p q⟩
  · exact hsign

/-- Operands that are reduced first and scaled afterwards. -/
theorem distributesToValue_reduced {s : Scaling}
    (hdistribute : distribute s l r = do (← l.reduce).scale s (← r.reduce))
    (hpieces : numeratorPieces r l = reducedNumbers l)
    (hl : l.ReducesToValue) (hr : r.ReducesToValue) : DistributesToValue s l r := by
  intro n h
  obtain ⟨v, w, hv, hw, hop⟩ := distributedValue_binary_eq_some.mp h
  obtain ⟨p, hp, hconstant, rfl⟩ := hl v hv
  obtain ⟨q, hq, hconstant', rfl⟩ := hr w hw
  rw [hdistribute, hp, ok_bind, hq, ok_bind]
  refine gives_scale hconstant hconstant' (fun _ => ?_) hop
  rw [hpieces, reducedNumbers, hp]

theorem reducesToValue (e : Expr) : e.ReducesToValue := by
  induction e using reduceInduction DistributesToValue with
  | term t =>
    intro n h
    cases t with
    | number m =>
      obtain rfl := Option.some.inj h
      rw [reduce]
      exact gives_number m
    | monomial x c k => cases h
  | plus e ih =>
    intro n h
    rw [reduce]
    exact ih n h
  | minus e ih =>
    intro n h
    obtain ⟨a, ha, rfl⟩ := Option.map_eq_some_iff.mp h
    obtain ⟨p, hp, hconstant, rfl⟩ := ih a ha
    rw [reduce, hp, ok_bind, pure_eq_ok]
    exact ⟨p.negated, rfl, TermSum.over_negated hconstant, TermSum.value_negated p⟩
  | unknownSign =>
    intro n h
    cases h
  | additive s l r ihl ihr => exact reducesToValue_additive s ihl ihr
  | mul l r ih =>
    intro n h
    rw [reduce]
    exact ih n h
  | div l r ih ihl ihr =>
    intro n h
    obtain ⟨p, hp, hgives⟩ := ih n h
    rw [reduce, hp, Attempt.ok_orIfNoRule]
    exact ⟨p, rfl, hgives⟩
  | power l r ihr ihl => exact reducesToValue_power ihl ihr
  | unknownOperator =>
    intro n h
    obtain ⟨a, b, _, _, hop⟩ := distributedValue_binary_eq_some.mp h
    cases hop
  | terms s t u => exact distributesToValue_terms s t u
  | termMulSum t a x y ihx ihy => exact distributesToValue_term_mul_additive a ihx ihy
  | termDivSum t a x y ih => exact distributesToValue_term_div_additive t ih
  | sumSigned s a x y op e ihl ihr =>
    exact distributesToValue_reduced (by simp only [distribute]) rfl ihl ihr
  | sum s a x y r hsign ihx ihy => exact distributesToValue_additive hsign ihx ihy
  | operands s l r h₁ h₂ h₃ h₄ ihl ihr =>
    refine distributesToValue_reduced ?_ (numeratorPieces_eq_reducedNumbers h₂ h₄) ihl ihr
    rw [distribute]
    all_goals assumption

/-- A constant expression reduces to the integer of its distributing evaluation. -/
theorem gives_reduce (h : e.distributedValue = some n) : e.reduce.Gives n :=
  e.reducesToValue n h

end Expr

end LaurentCalc
