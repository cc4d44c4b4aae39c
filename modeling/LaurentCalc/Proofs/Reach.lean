import LaurentCalc.Evaluation
import LaurentCalc.Proofs.Obstacles

/-!
# The reach of a reduction

Reduction gets to no level below the tree, and no fault shows a tree that is higher than the
one reduced. So a tree that can be printed can be reduced, and what is wrong with it can
be said.
-/

namespace LaurentCalc

set_option autoImplicit false

namespace Expr

theorem height_pos (e : Expr) : 0 < e.height := by
  cases e <;> simp [height]

theorem succ_lt_height_binary {op : BinaryOp} {l r : Expr} {k : Nat}
    (h : k < l.height ∨ k < r.height) : k + 1 < (binary op l r).height := by
  rw [height]
  omega

/-- Two parts are gone into one after the other. -/
theorem or_of_one_by_one {a b c : Bool} (h : (a || (c && b)) = true) : a = true ∨ b = true := by
  cases a with
  | true => exact Or.inl rfl
  | false => exact Or.inr ((Bool.and_eq_true _ _).mp h).2

/-- Reduction gets to no level below the tree. -/
theorem lt_height_of_overruns (k : Nat) (e : Expr) : e.overruns k = true → k < e.height := by
  refine overruns.induct (fun k e => overruns k e = true → k < e.height)
    (fun s k m l r => overrunsAcross s k m l r = true → k < l.height ∨ m < r.height)
    (fun s k m l r => overrunsSides s k m l r = true → k < l.height ∨ m < r.height)
    ?none ?term ?sign ?unknownSign ?additive ?scaling ?power ?unknownOperator ?mul ?div ?terms
    ?termMulSum ?termDivSum ?sumSigned ?sum ?operands k e
  case none =>
    intro e _
    exact e.height_pos
  case term =>
    intro k t h
    rw [overruns] at h
    cases h
  case sign =>
    intro k s e ih h
    rw [overruns] at h
    exact Nat.succ_lt_succ (ih h)
  case unknownSign =>
    intro k symbol e h
    rw [overruns] at h
    cases h
  case additive =>
    intro k s l r hl hr h
    rw [overruns] at h
    exact succ_lt_height_binary ((or_of_one_by_one h).imp hl hr)
  case scaling =>
    intro k s l r ih h
    rw [overruns] at h
    exact succ_lt_height_binary (ih h)
  case power =>
    intro k l r hr hl h
    rw [overruns] at h
    exact succ_lt_height_binary ((or_of_one_by_one h).imp hr hl).symm
  case unknownOperator =>
    intro k symbol l r h
    rw [overruns] at h
    cases h
  case mul =>
    intro k m l r ih h
    rw [overrunsAcross] at h
    exact ih h
  case div =>
    intro k m l r ih hl hr h
    rw [overrunsAcross] at h
    rcases or_of_one_by_one h with h | h
    · exact ih h
    · exact (or_of_one_by_one h).imp hl hr
  case terms =>
    intro s k m t u h
    rw [overrunsSides, Bool.or_eq_true, decide_eq_true_eq, decide_eq_true_eq] at h
    rw [height, height]
    omega
  case termMulSum =>
    intro k m t a x y hx hy h
    rw [overrunsSides] at h
    rw [height] at hx hy ⊢
    rw [height]
    rcases or_of_one_by_one h with h | h
    · rw [Bool.or_eq_true, decide_eq_true_eq] at h
      have hlt := h.imp_right hx
      omega
    · have hlt := hy h
      omega
  case termDivSum =>
    intro k m t a x y ih h
    rw [overrunsSides, Bool.or_eq_true, decide_eq_true_eq] at h
    rcases h with h | h
    · exact Or.inl (h ▸ height_pos _)
    · exact Or.inr (ih h)
  case sumSigned =>
    intro s k m a x y op e hl hr h
    rw [overrunsSides] at h
    exact (or_of_one_by_one h).imp hl hr
  case sum =>
    intro s k m a x y r hsign hx hy h
    rw [overrunsSides] at h
    · rw [height]
      rcases or_of_one_by_one h with h | h
      · rw [Bool.or_eq_true, decide_eq_true_eq] at h
        have hlt := h.imp_right hx
        omega
      · have hlt := hy h
        omega
    · exact hsign
  case operands =>
    intro s k m l r h₁ h₂ h₃ h₄ hl hr h
    rw [overrunsSides] at h
    · exact (or_of_one_by_one h).imp hl hr
    all_goals assumption

variable {e power : Expr} {limit : Nat}

theorem height_le_of_mem_powers (h : power ∈ e.powers) : power.height ≤ e.height := by
  induction e with
  | term t => cases h
  | unary op e ih => exact Nat.le_succ_of_le (ih h)
  | binary op l r ihl ihr =>
    have hsides : power ∈ l.powers ++ r.powers → power.height ≤ (binary op l r).height := by
      intro h
      rw [height]
      rcases List.mem_append.mp h with h | h
      · have hl := ihl h
        omega
      · have hr := ihr h
        omega
    cases op with
    | power =>
      rcases List.mem_cons.mp h with rfl | h
      · exact Nat.le_refl _
      · exact hsides h
    | additive | scaling | unknown => exact hsides h

/-- A fault shows the tree itself or a power in it. -/
theorem height_le_of_shown {fault : Fault} {shown : Expr} (h : e.simplify = .error fault)
    (hshown : fault.shown? = some shown) : shown.height ≤ e.height := by
  unfold simplify at h
  split at h
  · cases h
  · next o hreduce =>
    obtain rfl := Except.error.inj h
    cases o with
    | noRule =>
      obtain rfl := Option.some.inj hshown
      exact Nat.le_refl _
    | divisionByZero n => cases hshown
    | zeroToZero power =>
      obtain rfl := Option.some.inj hshown
      exact height_le_of_mem_powers (zeroPower_of_reduce hreduce).1

theorem fitsCalls_eq (limit : Nat) (e : Expr) :
    e.fitsCalls limit = !e.overruns (callLimit limit) := by
  unfold fitsCalls
  cases hoverruns : e.overruns (callLimit limit) with
  | false => exact Bool.or_true _
  | true =>
    have hlt := e.lt_height_of_overruns _ hoverruns
    rw [decide_eq_false (Nat.not_le_of_lt hlt)]
    rfl

/-- Whether the calls do not suffice to reduce an expression, or to say what is wrong with it. -/
def goesTooDeep (limit : Nat) (e : Expr) : Bool :=
  e.overruns (callLimit limit) ||
    match e.simplify with
    | .ok _ => false
    | .error fault => fault.shown?.any (limit < ·.height)

theorem simplifyWithin_eq (limit : Nat) (e : Expr) :
    e.simplifyWithin limit =
      if e.goesTooDeep limit then .error .nestedTooDeeply else e.simplify := by
  rw [simplifyWithin, fitsCalls_eq]
  unfold goesTooDeep
  cases e.overruns (callLimit limit) with
  | true => rfl
  | false =>
    rw [Bool.false_or, Bool.not_false, if_pos rfl]
    cases e.simplify with
    | ok p => rfl
    | error fault =>
      change Except.error (fault.within limit) =
        if fault.shown?.any (limit < ·.height) = true then _ else Except.error fault
      rw [Fault.within]
      split <;> rfl

theorem lt_height_of_goesTooDeep (h : e.goesTooDeep limit = true) : limit < e.height := by
  unfold goesTooDeep at h
  rcases Bool.or_eq_true_iff.mp h with h | h
  · exact Nat.lt_of_le_of_lt (le_callLimit limit) (e.lt_height_of_overruns _ h)
  · cases hsimplify : e.simplify with
    | ok p =>
      rw [hsimplify] at h
      cases h
    | error fault =>
      rw [hsimplify] at h
      obtain ⟨shown, hshown, hlt⟩ := (Option.any_eq_true _ _).mp h
      have hle := height_le_of_shown hsimplify hshown
      have hlt := of_decide_eq_true hlt
      omega

/-- A tree that can be printed can be simplified. -/
theorem simplifyWithin_of_le (h : e.height ≤ limit) : e.simplifyWithin limit = e.simplify := by
  rw [simplifyWithin_eq]
  exact if_neg fun hdeep => Nat.not_lt.mpr h (lt_height_of_goesTooDeep hdeep)

end Expr

end LaurentCalc
