import LaurentCalc.Proofs.DistributedValue
import LaurentCalc.Proofs.Limit
import LaurentCalc.Proofs.RewrittenSums

/-!
# Constant exponents

A constant without quotients reduces to numbers that add up to its integer. They are left
apart where a product was distributed over a sum; a power puts them together again. An
exponent has to be one number, so it counts only by its integer if its tree folds, and has
no rule if it does not.
-/

namespace LaurentCalc

set_option autoImplicit false

namespace Expr

/-- The expression has numbers only, no quotient and natural numbers as exponents, and amounts to
the integer. Zero is not raised to the power zero in it. -/
inductive AmountsTo : Expr → Int → Prop where
  | number (n : Int) : AmountsTo (.number n) n
  | plus {e : Expr} {a : Int} (h : AmountsTo e a) : AmountsTo (.unary (.sign .plus) e) a
  | minus {e : Expr} {a : Int} (h : AmountsTo e a) : AmountsTo (.unary (.sign .minus) e) (-a)
  | additive (s : Sign) {l r : Expr} {a b : Int} (hl : AmountsTo l a) (hr : AmountsTo r b) :
      AmountsTo (.additive s l r) (s.apply a b)
  | mul {l r : Expr} {a b : Int} (hl : AmountsTo l a) (hr : AmountsTo r b) :
      AmountsTo (.scaling .mul l r) (a * b)
  | power (k : Nat) {base : Expr} {a : Int} (h : AmountsTo base a) (hzero : ¬(a = 0 ∧ k = 0)) :
      AmountsTo (.binary .power base (.number k)) (a ^ k)

/-- Whether a product or quotient is carried out side by side: over a sum on the left unless the
operand on the right is signed, and a term is multiplied into the sides of a sum on the right. -/
def distributes : Scaling → Expr → Expr → Bool
  | _, .binary (.additive _) _ _, .unary .. => false
  | _, .binary (.additive _) _ _, _ => true
  | .mul, .term _, .binary (.additive _) _ _ => true
  | _, _, _ => false

/-- Whether the numbers of a constant are all put together on the way. -/
def folds : Expr → Bool
  | .term _ => true
  | .unary _ e => e.folds
  | .binary (.additive _) l r => l.folds && r.folds
  | .binary (.scaling s) l r => !distributes s l r && l.folds && r.folds
  | .binary .power l r => r ≠ .number 1 || l.folds
  | .binary (.unknown _) _ _ => true

end Expr

namespace TermSum

def IsTerm : TermSum → Prop
  | .term _ => True
  | .join .. => False

variable {p q m : TermSum}

theorem isTerm_iff : p.IsTerm ↔ ∃ t, p = .term t := by
  cases p with
  | term t => exact ⟨fun _ => ⟨t, rfl⟩, fun _ => trivial⟩
  | join s l r => exact ⟨fun h => h.elim, fun ⟨_, h⟩ => nomatch h⟩

theorem isTerm_negated (p : TermSum) : p.negated.IsTerm ↔ p.IsTerm := by
  cases p <;> exact Iff.rfl

theorem isTerm_mapTerms {f : Term → Attempt Term} (h : p.mapTerms f = .ok m) :
    m.IsTerm ↔ p.IsTerm := by
  cases p with
  | term t =>
    obtain ⟨v, -, hm⟩ := bind_eq_ok_iff.mp h
    obtain rfl := Except.ok.inj hm
    exact Iff.rfl
  | join s l r =>
    obtain ⟨l', -, h⟩ := bind_eq_ok_iff.mp h
    obtain ⟨r', -, hm⟩ := bind_eq_ok_iff.mp h
    obtain rfl := Except.ok.inj hm
    exact Iff.rfl

theorem isTerm_mul (h : p.mul q = .ok m) : m.IsTerm ↔ p.IsTerm ∧ q.IsTerm := by
  cases p with
  | term t =>
    rw [isTerm_mapTerms h]
    exact ⟨fun hq => ⟨trivial, hq⟩, And.right⟩
  | join s l r =>
    obtain ⟨l', -, h⟩ := bind_eq_ok_iff.mp h
    obtain ⟨r', -, hm⟩ := bind_eq_ok_iff.mp h
    obtain rfl := Except.ok.inj hm
    exact ⟨False.elim, And.left⟩

namespace Constant

theorem eq_number_iff (h : p.Constant) : p = .number p.constantValue ↔ p.IsTerm := by
  constructor
  · intro heq
    rw [heq]
    trivial
  · intro hterm
    obtain ⟨t, rfl⟩ := isTerm_iff.mp hterm
    exact h.united_eq

theorem isTerm_unite (s : Sign) (hp : p.Constant) (hq : q.Constant) :
    (p.unite s q).IsTerm ↔ p.IsTerm ∧ q.IsTerm := by
  cases p with
  | join s' l r => exact ⟨False.elim, And.left⟩
  | term t =>
    cases q with
    | join s' l r => exact ⟨False.elim, And.right⟩
    | term u =>
      obtain ⟨a, rfl⟩ := hp.eq_number
      obtain ⟨b, rfl⟩ := hq.eq_number
      exact (and_self_iff).symm

theorem isTerm_collect (h : p.Constant) : p.collect.IsTerm := by
  rw [h.collect_eq]
  trivial

theorem isTerm_mulRepeatedly {factor : TermSum} {n : Nat} (hfactor : factor.Constant)
    (hp : p.Constant) (hterm : p.IsTerm) (h : mulRepeatedly factor n p = .ok q) : q.IsTerm := by
  induction n generalizing p with
  | zero =>
    obtain rfl := Except.ok.inj h
    exact hterm
  | succ n ih =>
    obtain ⟨next, hnext, h⟩ := bind_eq_ok_iff.mp h
    have hconstant := over_mul hp hfactor hnext
    exact ih (over_collect hconstant) (isTerm_collect hconstant) h

/-- Only the first power leaves a constant sum as it is. -/
theorem isTerm_power {n : Nat} (hn : 0 < n) (hp : p.Constant) (h : p.power n = .ok q) :
    q.IsTerm ↔ n ≠ 1 ∨ p.IsTerm := by
  cases p with
  | term t =>
    obtain rfl := Except.ok.inj h
    exact ⟨fun _ => Or.inr trivial, fun _ => trivial⟩
  | join s l r =>
    rw [power] at h
    obtain ⟨k, rfl⟩ := Nat.exists_eq_add_of_lt hn
    cases k with
    | zero =>
      obtain rfl := Except.ok.inj h
      exact ⟨Or.inr, fun h => h.elim (absurd rfl) id⟩
    | succ k =>
      obtain ⟨next, hnext, h⟩ := bind_eq_ok_iff.mp h
      have hconstant := over_mul hp hp hnext
      have hterm := isTerm_mulRepeatedly hp (over_collect hconstant) (isTerm_collect hconstant) h
      exact ⟨fun _ => Or.inl (by omega), fun _ => hterm⟩

end Constant

theorem scale_terms (s : Scaling) (t u : Term) :
    scale s (.term t) (.term u) = (t.scale s u >>= fun v => .ok (.term v)) := by
  cases s with
  | mul =>
    rw [Term.scale, t.mul_comm]
    rfl
  | div => rfl

end TermSum

namespace Expr

variable {e l r base : Expr} {p q m : TermSum} {n : Int}

theorem distributes_sum (s : Scaling) (a : Sign) (x y : Expr)
    (hsign : ∀ op operand, r = .unary op operand → False) :
    distributes s (.additive a x y) r = true := by
  cases r with
  | unary op operand => exact absurd rfl (hsign op operand)
  | term | binary => cases s <;> rfl

theorem distributes_operands (s : Scaling)
    (hsum : ∀ t a x y, l = .term t → r = .additive a x y → False)
    (hadditive : ∀ a x y, l = .additive a x y → False) : distributes s l r = false := by
  cases l with
  | unary op operand => cases s <;> rfl
  | binary op x y =>
    cases op with
    | additive a => exact absurd rfl (hadditive a x y)
    | scaling | power | unknown => cases s <;> rfl
  | term t =>
    cases r with
    | term | unary => cases s <;> rfl
    | binary op x y =>
      cases op with
      | additive a => exact absurd rfl (hsum t a x y rfl)
      | scaling | power | unknown => cases s <;> rfl

/-- What is carried out side by side stays a sum. -/
theorem not_isTerm_distribute {s : Scaling} (hd : distributes s l r = true)
    (h : distribute s l r = .ok m) : ¬m.IsTerm := by
  unfold distribute at h
  split at h
  · cases s <;> cases hd
  · cases s with
    | div => cases hd
    | mul =>
      obtain ⟨p, -, h⟩ := bind_eq_ok_iff.mp h
      obtain ⟨q, -, hm⟩ := bind_eq_ok_iff.mp h
      obtain rfl := Except.ok.inj hm
      exact id
  · cases s <;> cases hd
  · obtain ⟨p, -, h⟩ := bind_eq_ok_iff.mp h
    obtain ⟨q, -, hm⟩ := bind_eq_ok_iff.mp h
    obtain rfl := Except.ok.inj hm
    exact id
  · next hadditive _ hsum _ =>
    rw [distributes_operands s hsum hadditive] at hd
    cases hd

/-- Operands that are not taken apart are reduced from left to right and then scaled. -/
theorem distribute_of_not_distributes {s : Scaling} (hd : distributes s l r = false)
    (hsum : ∀ t a x y, l = .term t → r = .additive a x y → False) :
    distribute s l r = l.reduce >>= fun p => r.reduce >>= fun q => p.scale s q := by
  unfold distribute
  split
  · next t u =>
    rw [reduce, reduce, ok_bind, ok_bind, TermSum.scale_terms]
    rfl
  · exact (hsum _ _ _ _ rfl rfl).elim
  · rfl
  · next hsign =>
    rw [distributes_sum s _ _ _ hsign] at hd
    cases hd
  · rfl

theorem reduce_mul_of_not_distributes (hd : distributes .mul l r = false) (hl : l.reduce = .ok p)
    (hr : r.reduce = .ok q) : (scaling .mul l r).reduce = p.mul q := by
  rw [reduce, distribute_of_not_distributes hd, hl, hr, ok_bind, ok_bind, TermSum.scale]
  rintro t a x y rfl rfl
  cases hd

namespace AmountsTo

theorem distributedValue_eq (h : e.AmountsTo n) : e.distributedValue = some n := by
  induction h with
  | number n => rfl
  | plus h ih => exact ih
  | minus h ih => rw [distributedValue, ih, Option.map_some]
  | additive s hl hr ihl ihr => exact distributedValue_binary_eq_some.mpr ⟨_, _, ihl, ihr, rfl⟩
  | mul hl hr ihl ihr => exact distributedValue_binary_eq_some.mpr ⟨_, _, ihl, ihr, rfl⟩
  | @power k base a h hzero ih =>
    refine distributedValue_binary_eq_some.mpr ⟨a, k, ih, rfl, ?_⟩
    have hdefined : ¬((k : Int) < 0 ∨ a = 0 ∧ (k : Int) = 0) := by
      rintro (hneg | ⟨ha, hk⟩)
      · omega
      · exact hzero ⟨ha, by omega⟩
    simp only [distributed?, reduce]
    rw [BinaryOp.truncated?, if_neg hdefined, Int.toNat_natCast]

/-- The constant reduces to numbers that add up to its integer. -/
theorem gives (h : e.AmountsTo n) : e.reduce.Gives n := gives_reduce h.distributedValue_eq

theorem isTerm_iff_folds (h : e.AmountsTo n) (hp : e.reduce = .ok p) :
    p.IsTerm ↔ e.folds = true := by
  induction h generalizing p with
  | number n =>
    rw [reduce] at hp
    obtain rfl := Except.ok.inj hp
    exact ⟨fun _ => rfl, fun _ => trivial⟩
  | plus h ih =>
    rw [reduce] at hp
    exact ih hp
  | minus h ih =>
    rw [reduce] at hp
    obtain ⟨q, hq, hp⟩ := bind_eq_ok_iff.mp hp
    obtain rfl := Except.ok.inj hp
    exact (TermSum.isTerm_negated q).trans (ih hq)
  | additive s hl hr ihl ihr =>
    obtain ⟨p₁, hp₁, hconstant₁, -⟩ := hl.gives
    obtain ⟨p₂, hp₂, hconstant₂, -⟩ := hr.gives
    rw [reduce, hp₁, hp₂] at hp
    obtain rfl := Except.ok.inj hp
    rw [hconstant₁.isTerm_unite s hconstant₂, ihl hp₁, ihr hp₂, folds, Bool.and_eq_true]
  | @mul l r a b hl hr ihl ihr =>
    obtain ⟨p₁, hp₁, -⟩ := hl.gives
    obtain ⟨p₂, hp₂, -⟩ := hr.gives
    cases hd : distributes .mul l r with
    | true =>
      rw [reduce] at hp
      have hnot := not_isTerm_distribute hd hp
      simp [folds, hd, hnot]
    | false =>
      rw [reduce_mul_of_not_distributes hd hp₁ hp₂] at hp
      rw [TermSum.isTerm_mul hp, ihl hp₁, ihr hp₂, folds, hd, Bool.not_false, Bool.true_and,
        Bool.and_eq_true]
  | @power k base a h hzero ih =>
    obtain ⟨b, hb, hconstant, rfl⟩ := h.gives
    have hexponent : (Expr.number k ≠ .number 1) ↔ k ≠ 1 := by simp
    rw [folds, Bool.or_eq_true, decide_eq_true_iff, hexponent, ← ih hb]
    rw [reduce, reduce, ok_bind] at hp
    have hnonneg : ¬(k : Int) < 0 := by omega
    simp only [hnonneg, if_false, hb, ok_bind, Int.toNat_natCast] at hp
    split at hp
    · next hk =>
      have hone : k ≠ 1 := by omega
      split at hp
      · cases hp
      · obtain rfl := Except.ok.inj hp
        exact ⟨fun _ => Or.inl hone, fun _ => trivial⟩
    · exact hconstant.isTerm_power (by omega) hp

theorem reduce_eq_number_iff (h : e.AmountsTo n) : e.reduce = .ok (.number n) ↔ e.folds = true := by
  obtain ⟨p, hp, hconstant, rfl⟩ := h.gives
  rw [← h.isTerm_iff_folds hp, ← hconstant.eq_number_iff, hp]
  exact ⟨Except.ok.inj, congrArg Except.ok⟩

end AmountsTo

end Expr

/-- The kind under which an obstacle is reported, whatever it names. -/
def Obstacle.kind : Obstacle → ReportKind
  | .noRule => .nothingToSimplify
  | .divisionByZero _ => .divisionByZero
  | .zeroToZero _ => .zeroToZero

theorem Obstacle.kind_eq (e : Expr) (o : Obstacle) : o.kind = (Fault.ofObstacle e o).kind := by
  cases o <;> rfl

namespace Expr

variable {e base : Expr} {n : Int}

/-- Whether zero is raised to the power zero depends on the reduced base. -/
theorem reduce_zeroth_power (base : Expr) (h : e.reduce = .ok (.number 0)) :
    (binary .power base e).reduce =
      match base.reduce with
      | .ok p =>
        if p.isZeroTerm then .error (.zeroToZero (.binary .power base e)) else .ok (.number 1)
      | .error .noRule => .ok (.number 1)
      | .error obstacle => .error obstacle := by
  rw [reduce, h, ok_bind]
  rfl

theorem reduce_nonzero_power (base : Expr) (h : e.reduce = .ok (.number n)) (hzero : n ≠ 0) :
    (binary .power base e).reduce =
      if n < 0 then .error .noRule else base.reduce >>= fun p => p.power n.toNat := by
  rw [reduce, h, ok_bind]
  simp only [hzero, if_false]

/-- The exponent counts only once it is reduced; the tree of the power shows in a message alone. -/
theorem mapError_reduce_power (base : Expr) (h : e.reduce = .ok (.number n)) :
    (binary .power base e).reduce.mapError Obstacle.kind =
      (binary .power base (.number n)).reduce.mapError Obstacle.kind := by
  have hnumber : (Expr.number n).reduce = .ok (.number n) := by rw [reduce]
  by_cases hzero : n = 0
  · subst hzero
    rw [reduce_zeroth_power base h, reduce_zeroth_power base hnumber]
    cases base.reduce with
    | ok p => cases hp : p.isZeroTerm <;> simp only [hp] <;> rfl
    | error o => cases o <;> rfl
  · rw [reduce_nonzero_power base h hzero, reduce_nonzero_power base hnumber hzero]

theorem reduce_power_of_not_isTerm {p : TermSum} (base : Expr) (h : e.reduce = .ok p)
    (hterm : ¬p.IsTerm) : (binary .power base e).reduce = .error .noRule := by
  cases p with
  | term t => exact absurd trivial hterm
  | join s l r => rw [reduce, h, ok_bind]

/-- A constant exponent that folds counts by its integer alone, whatever the base is and however the
exponent is written; and there is no rule for one that does not fold. -/
theorem reduce_power_constant_exponent (base : Expr) (h : e.AmountsTo n) :
    (e.folds = true → (binary .power base e).reduce.mapError Obstacle.kind =
      (binary .power base (.number n)).reduce.mapError Obstacle.kind) ∧
    (e.folds = false → (binary .power base e).reduce = .error .noRule) := by
  constructor
  · intro hfolds
    exact mapError_reduce_power base (h.reduce_eq_number_iff.mpr hfolds)
  · intro hfolds
    obtain ⟨p, hp, -⟩ := h.gives
    apply reduce_power_of_not_isTerm base hp
    rw [h.isTerm_iff_folds hp, hfolds]
    exact Bool.false_ne_true

set_option maxRecDepth 20000 in
theorem reduce_power_constant_exponent_cube :
    (binary .power (additive .plus (.term (.named "x")) (number 1))
      (additive .minus (binary .power (scaling .mul (number 2) (additive .plus (number 1) (number 1)))
        (number 2)) (number 13))).reduce.mapError Obstacle.kind =
      (binary .power (additive .plus (.term (.named "x")) (number 1))
        (number 3)).reduce.mapError Obstacle.kind ∧
    (binary .power (additive .plus (.term (.named "x")) (number 1))
      (scaling .mul (number 2) (additive .plus (number 1) (number 1)))).reduce =
        .error .noRule := by
  have hfour : (scaling .mul (number 2) (additive .plus (number 1) (number 1))).AmountsTo 4 :=
    .mul (.number 2) (.additive .plus (.number 1) (.number 1))
  have hthree : (additive .minus (binary .power
      (scaling .mul (number 2) (additive .plus (number 1) (number 1))) (number 2))
        (number 13)).AmountsTo 3 :=
    .additive .minus (.power 2 hfour (by decide)) (.number 13)
  exact ⟨(reduce_power_constant_exponent _ hthree).1 rfl,
    (reduce_power_constant_exponent _ hfour).2 rfl⟩

set_option maxRecDepth 20000 in
/-- A product over a sum is no exponent, though it amounts to one. -/
theorem reduce_power_unfolded_exponent :
    (scaling .mul (number 2) (additive .plus (number 1) (number 1))).AmountsTo 4 ∧
    (binary .power (number 2) (scaling .mul (number 2)
      (additive .plus (number 1) (number 1)))).reduce.mapError Obstacle.kind ≠
        (binary .power (number 2) (number 4)).reduce.mapError Obstacle.kind ∧
    (evaluate 600 false "2^(2*(1+1))").outcome = .ok "2^(2*(1+1))" ∧
    (evaluate 600 false "2^4").outcome = .ok "16" := by
  have hunfolded : (binary .power (number 2) (scaling .mul (number 2)
      (additive .plus (number 1) (number 1)))).reduce = .error .noRule := by cbv
  have hliteral : (binary .power (number 2) (number 4)).reduce = .ok (.number 16) := by
    decide +kernel
  have hparse : parseWithin 600 "2^4" = .ok (binary .power (number 2) (number 4)) := by cbv
  refine ⟨.mul (.number 2) (.additive .plus (.number 1) (.number 1)), ?_, ?_, ?_⟩
  · rw [hunfolded, hliteral]
    intro heq
    cases heq
  · cbv
  · exact outcome_evaluate_of_simplify hparse (simplify_eq_ok_iff.mpr hliteral)

end Expr

end LaurentCalc
