import LaurentCalc.Proofs.Denominators

/-!
# The order of operands

Operands are reduced from left to right, and the first obstacle ends the reduction. So it
depends on their order which obstacle is met, if there is more than one: an operand without a
rule hides an arithmetic failure behind it, and so does a product of different names that comes
up while a sum is distributed. Nothing else depends on the order: there is a result in both
orders or in none, and it has the same text.
-/

namespace LaurentCalc

set_option autoImplicit false

inductive Outcome where
  | value
  | noRule
  | failure
  deriving DecidableEq

/-- The kind of the outcome: a value, no rule, or an arithmetic failure. -/
def Attempt.outcome {α : Type} : Attempt α → Outcome
  | .ok _ => .value
  | .error .noRule => .noRule
  | .error _ => .failure

namespace Attempt

variable {α β : Type} {x : Attempt α}

theorem outcome_eq_value_iff : x.outcome = .value ↔ ∃ v, x = .ok v := by
  cases x with
  | ok v => exact ⟨fun _ => ⟨v, rfl⟩, fun _ => rfl⟩
  | error o =>
    constructor
    · intro h
      cases o <;> cases h
    · rintro ⟨v, h⟩
      cases h

theorem outcome_error_ne_value (o : Obstacle) :
    Attempt.outcome (.error o : Attempt α) ≠ .value := by
  cases o <;> exact Outcome.noConfusion

theorem outcome_map (f : α → β) (x : Attempt α) :
    Attempt.outcome (x.map f) = x.outcome := by
  cases x with
  | ok v => rfl
  | error o => cases o <;> rfl

theorem toOption_map (f : α → β) (x : Attempt α) :
    Except.toOption (x.map f) = x.toOption.map f := by
  cases x <;> rfl

theorem toOption_eq_none (h : x.outcome ≠ .value) : x.toOption = none := by
  cases x with
  | ok v => exact absurd rfl h
  | error o => rfl

end Attempt

namespace Expr

/-- The one operand has no rule and the other fails. -/
def Opposed (a b : Expr) : Prop :=
  a.reduce.outcome = .noRule ∧ b.reduce.outcome = .failure ∨
    a.reduce.outcome = .failure ∧ b.reduce.outcome = .noRule

/-- A summand of the one operand and a summand of the other reduce to sums with different names. -/
def Clashes (a b : Expr) : Prop :=
  ∃ x ∈ a.sides, ∃ y ∈ b.sides, ∃ p q, x.reduce = .ok p ∧ y.reduce = .ok q ∧ ¬p.SameNames q

/-- How a product comes out: both operands reduce, or one of them has the obstacle that is met, or
the product of two of their summands has no rule. -/
inductive Multiplies (a b : Expr) : Attempt TermSum → Prop where
  | reduced {p q m : TermSum} (ha : a.reduce = .ok p) (hb : b.reduce = .ok q) :
      Multiplies a b (.ok m)
  | left {o : Obstacle} (ha : a.reduce = .error o) : Multiplies a b (.error o)
  | right {o : Obstacle} (hb : b.reduce = .error o) : Multiplies a b (.error o)
  | clash (h : a.Clashes b) : Multiplies a b (.error .noRule)

variable {a b l r : Expr} {p q : TermSum} {x y : Attempt TermSum} {name : String} {o : Obstacle}

theorem Clashes.symm (h : a.Clashes b) : b.Clashes a := by
  obtain ⟨x, hx, y, hy, p, q, hp, hq, hnames⟩ := h
  exact ⟨y, hy, x, hx, q, p, hq, hp, fun h => hnames (TermSum.sameNames_comm.mp h)⟩

theorem Clashes.mono {a' : Expr} (h : a.Clashes b) (hsides : a.sides ⊆ a'.sides) :
    a'.Clashes b := by
  obtain ⟨x, hx, hclash⟩ := h
  exact ⟨x, hsides hx, hclash⟩

theorem sides_left (s : Sign) (l r : Expr) : l.sides ⊆ (additive s l r).sides :=
  List.subset_append_left _ _

theorem sides_right (s : Sign) (l r : Expr) : r.sides ⊆ (additive s l r).sides :=
  List.subset_append_right _ _

/-- A name of a reduced sum comes from one of its sides. -/
theorem exists_side_of_mem_names (h : a.reduce = .ok p) (hname : name ∈ p.names) :
    ∃ x ∈ a.sides, ∃ m, x.reduce = .ok m ∧ name ∈ m.names := by
  induction a using sidesInduction generalizing p with
  | additive s l r ihl ihr =>
    obtain ⟨p₁, p₂, hl, hr, rfl⟩ := reduce_additive_eq_ok h
    rcases (TermSum.mem_names_unite s p₁ p₂).mp hname with hname | hname
    · obtain ⟨x, hx, hside⟩ := ihl hl hname
      exact ⟨x, sides_left s l r hx, hside⟩
    · obtain ⟨x, hx, hside⟩ := ihr hr hname
      exact ⟨x, sides_right s l r hx, hside⟩
  | other e hother =>
    rw [sides_of_not_isSum (not_isSum_iff.mpr hother)]
    exact ⟨e, List.mem_cons_self, p, h, hname⟩

theorem clashes_of_not_sameNames (ha : a.reduce = .ok p) (hb : b.reduce = .ok q)
    (h : ¬p.SameNames q) : a.Clashes b := by
  unfold TermSum.SameNames at h
  push Not at h
  obtain ⟨z, hz, w, hw, hne⟩ := h
  obtain ⟨x, hx, m, hm, hzm⟩ := exists_side_of_mem_names ha hz
  obtain ⟨y, hy, n, hn, hwn⟩ := exists_side_of_mem_names hb hw
  exact ⟨x, hx, y, hy, m, n, hm, hn, fun hsame => hne (hsame z hzm w hwn)⟩

theorem reduce_additive_of_left (s : Sign) (r : Expr) (h : l.reduce = .error o) :
    (additive s l r).reduce = .error o := by
  rw [reduce, h, error_bind]

theorem reduce_additive_of_right (s : Sign) (hl : l.reduce = .ok p) (h : r.reduce = .error o) :
    (additive s l r).reduce = .error o := by
  rw [reduce, hl, ok_bind, h, error_bind]

namespace Multiplies

theorem symm (h : Multiplies a b x) : Multiplies b a x := by
  cases h with
  | reduced ha hb => exact .reduced hb ha
  | left ha => exact .right ha
  | right hb => exact .left hb
  | clash h => exact .clash h.symm

/-- The sides of a sum are multiplied one after the other. -/
theorem join (s : Sign) (hx : Multiplies l b x) (hy : Multiplies r b y) :
    Multiplies (additive s l r) b (do let m ← x; let n ← y; return .join s m n) := by
  cases hx with
  | @reduced p q m hl hb =>
    cases hy with
    | @reduced p' q' n hr hb' =>
      have hsum : (additive s l r).reduce = .ok (p.unite s p') := by
        rw [reduce, hl, hr, ok_bind, ok_bind, pure_eq_ok]
      exact .reduced hsum hb
    | left hr => exact .left (reduce_additive_of_right s hl hr)
    | right hb' => exact .right hb'
    | clash h => exact .clash (h.mono (sides_right s l r))
  | left hl => exact .left (reduce_additive_of_left s r hl)
  | right hb => exact .right hb
  | clash h => exact .clash (h.mono (sides_left s l r))

/-- Both operands are reduced before they are multiplied. -/
theorem operands (a b : Expr) :
    Multiplies a b (do let p ← a.reduce; let q ← b.reduce; p.mul q) := by
  cases ha : a.reduce with
  | error o => exact .left ha
  | ok p =>
    cases hb : b.reduce with
    | error o => exact .right hb
    | ok q =>
      rw [ok_bind, ok_bind]
      cases hmul : p.mul q with
      | ok m => exact .reduced ha hb
      | error o =>
        have hproduct := IsProduct.mul p q
        rw [hmul] at hproduct
        cases hproduct with
        | noRule hnames => exact .clash (clashes_of_not_sameNames ha hb hnames)

theorem of_error (h : Multiplies a b (.error o)) :
    a.reduce = .error o ∨ b.reduce = .error o ∨ o = .noRule ∧ a.Clashes b := by
  cases h with
  | left ha => exact Or.inl ha
  | right hb => exact Or.inr (Or.inl hb)
  | clash h => exact Or.inr (Or.inr ⟨rfl, h⟩)

theorem outcome_eq (h : Multiplies a b x)
    (hvalues : ¬(a.reduce.outcome = .value ∧ b.reduce.outcome = .value)) :
    x.outcome ≠ .value ∧ (x.outcome = a.reduce.outcome ∨ x.outcome = b.reduce.outcome ∨
      x.outcome = .noRule ∧ a.Clashes b) := by
  cases h with
  | reduced ha hb =>
    rw [ha, hb] at hvalues
    exact absurd ⟨rfl, rfl⟩ hvalues
  | left ha =>
    rw [ha]
    exact ⟨Attempt.outcome_error_ne_value _, Or.inl rfl⟩
  | right hb =>
    rw [hb]
    exact ⟨Attempt.outcome_error_ne_value _, Or.inr (Or.inl rfl)⟩
  | clash h => exact ⟨Attempt.outcome_error_ne_value _, Or.inr (Or.inr ⟨rfl, h⟩)⟩

end Multiplies

/-- However a product is distributed over its operands, it comes out in one of these ways. -/
theorem multiplies_reduce (a b : Expr) : Multiplies a b (scaling .mul a b).reduce := by
  -- The products that are reduced on the way are no parts of the given one; the induction follows
  -- them.
  have hproduct : ∀ e a b, e = scaling .mul a b → Multiplies a b e.reduce := by
    intro e
    induction e using
      (reduceInduction fun s a b => s = .mul → Multiplies a b (distribute s a b)) with
    | mul l r ih =>
      rintro _ _ ⟨⟩
      rw [reduce]
      exact ih rfl
    | terms s t u hs =>
      subst hs
      have ht : (Expr.term t).reduce = .ok (.term t) := by rw [reduce]
      have hu : (Expr.term u).reduce = .ok (.term u) := by rw [reduce]
      have hoperands := Multiplies.operands (.term u) (.term t)
      rw [ht, hu, ok_bind, ok_bind] at hoperands
      rw [distribute]
      exact hoperands.symm
    | termMulSum t s x y ihx ihy hs =>
      simp only [distribute]
      -- The factor is put behind both sides of the sum.
      exact ((ihx x (.term t) rfl).join s (ihy y (.term t) rfl)).symm
    | termDivSum t s x y ih hs => cases hs
    | sumSigned s t x y op e ihl ihr hs =>
      subst hs
      simp only [distribute]
      exact .operands _ _
    | sum s t x y r hsign ihx ihy hs =>
      subst hs
      rw [distribute]
      · exact (ihx x r rfl).join t (ihy y r rfl)
      · exact hsign
    | operands s l r h₁ h₂ h₃ h₄ ihl ihr hs =>
      subst hs
      rw [distribute]
      · exact .operands l r
      all_goals assumption
    | _ =>
      intro a b h
      cases h
  exact hproduct _ a b rfl

theorem outcome_reduce_additive (s : Sign) (a b : Expr) :
    (additive s a b).reduce.outcome =
      if a.reduce.outcome = .value then b.reduce.outcome else a.reduce.outcome := by
  cases ha : a.reduce with
  | ok p =>
    cases hb : b.reduce with
    | ok q =>
      rw [reduce, ha, hb, ok_bind, ok_bind]
      rfl
    | error o =>
      rw [reduce_additive_of_right s ha hb]
      rfl
  | error o =>
    rw [reduce_additive_of_left s b ha]
    cases o <;> rfl

theorem outcome_additive_comm (s : Sign) (h : ¬a.Opposed b) :
    (additive s a b).reduce.outcome = (additive s b a).reduce.outcome := by
  rw [outcome_reduce_additive, outcome_reduce_additive]
  unfold Opposed at h
  cases ha : a.reduce.outcome <;> cases hb : b.reduce.outcome <;> simp_all

/-- Two operands that reduce have products with the same text, or none, in both orders. -/
theorem map_render_mul_comm (ha : a.reduce = .ok p) (hb : b.reduce = .ok q) :
    (scaling .mul a b).reduce.map TermSum.render =
      (scaling .mul b a).reduce.map TermSum.render :=
  (isProduct_reduce_mul ha hb).comesTo.map_render_eq (isProduct_reduce_mul hb ha).comm.comesTo

/-- Where the order matters in a product, one operand fails, and the other has no rule or a summand
with another name. -/
theorem outcome_mul_comm (a b : Expr) :
    (scaling .mul a b).reduce.outcome = (scaling .mul b a).reduce.outcome ∨ a.Opposed b ∨
      a.Clashes b ∧ (a.reduce.outcome = .failure ∨ b.reduce.outcome = .failure) := by
  by_cases hvalues : a.reduce.outcome = .value ∧ b.reduce.outcome = .value
  · obtain ⟨p, hp⟩ := Attempt.outcome_eq_value_iff.mp hvalues.1
    obtain ⟨q, hq⟩ := Attempt.outcome_eq_value_iff.mp hvalues.2
    left
    rw [← Attempt.outcome_map TermSum.render, map_render_mul_comm hp hq, Attempt.outcome_map]
  · obtain ⟨hx, hab⟩ := (multiplies_reduce a b).outcome_eq hvalues
    obtain ⟨hy, hba⟩ := (multiplies_reduce b a).symm.outcome_eq hvalues
    unfold Opposed
    rcases hab with hab | hab | ⟨hab, hclash⟩
    all_goals
      rcases hba with hba | hba | ⟨hba, hclash'⟩
      all_goals
        rw [hab] at hx
        rw [hba] at hy
        rw [hab, hba]
        cases ha : a.reduce.outcome <;> cases hb : b.reduce.outcome <;> simp_all

theorem toOption_render_additive_comm (a b : Expr) :
    (additive .plus a b).reduce.toOption.map TermSum.render =
      (additive .plus b a).reduce.toOption.map TermSum.render := by
  cases ha : a.reduce with
  | ok p =>
    cases hb : b.reduce with
    | ok q =>
      have htext : (p.unite .plus q).render = (q.unite .plus p).render := by
        apply TermSum.render_eq_of_laurent_eq
        rw [TermSum.laurent_unite, TermSum.laurent_unite]
        exact add_comm _ _
      rw [reduce, reduce, ha, hb, ok_bind, ok_bind, ok_bind, ok_bind]
      exact congrArg some htext
    | error o =>
      rw [reduce_additive_of_right .plus ha hb, reduce_additive_of_left .plus a hb]
  | error o =>
    rw [reduce_additive_of_left .plus b ha]
    cases hb : b.reduce with
    | ok q => rw [reduce_additive_of_right .plus hb ha]
    | error o' => rw [reduce_additive_of_left .plus a hb]; rfl

theorem toOption_render_mul_comm (a b : Expr) :
    (scaling .mul a b).reduce.toOption.map TermSum.render =
      (scaling .mul b a).reduce.toOption.map TermSum.render := by
  by_cases hvalues : a.reduce.outcome = .value ∧ b.reduce.outcome = .value
  · obtain ⟨p, hp⟩ := Attempt.outcome_eq_value_iff.mp hvalues.1
    obtain ⟨q, hq⟩ := Attempt.outcome_eq_value_iff.mp hvalues.2
    rw [← Attempt.toOption_map, map_render_mul_comm hp hq, Attempt.toOption_map]
  · obtain ⟨hab, -⟩ := (multiplies_reduce a b).outcome_eq hvalues
    obtain ⟨hba, -⟩ := (multiplies_reduce b a).symm.outcome_eq hvalues
    rw [Attempt.toOption_eq_none hab, Attempt.toOption_eq_none hba]

/-- Sums and products in either order. A result comes out in both orders or in none, with the same
text. The kinds of outcome are the same, too, unless one operand fails while the other has no rule
or, in a product, a summand with another name. Every obstacle is one that an operand has by itself
or that two summands have to their product, and in a sum the operand on the left decides. -/
theorem reduce_operand_order {op : BinaryOp} (hop : op = .additive .plus ∨ op = .scaling .mul)
    (a b : Expr) :
    (binary op a b).reduce.toOption.map TermSum.render =
      (binary op b a).reduce.toOption.map TermSum.render ∧
    ((binary op a b).reduce.outcome = (binary op b a).reduce.outcome ∨ a.Opposed b ∨
      op = .scaling .mul ∧ a.Clashes b ∧
        (a.reduce.outcome = .failure ∨ b.reduce.outcome = .failure)) ∧
    (∀ o, (binary op a b).reduce = .error o → a.reduce = .error o ∨ b.reduce = .error o ∨
      op = .scaling .mul ∧ o = .noRule ∧ a.Clashes b) ∧
    (op = .additive .plus → a.Opposed b →
      (binary op a b).reduce.outcome = a.reduce.outcome ∧
        (binary op b a).reduce.outcome = b.reduce.outcome) := by
  rcases hop with rfl | rfl
  · refine ⟨toOption_render_additive_comm a b, ?_, fun o ho => ?_, fun _ hopposed => ?_⟩
    · by_cases hopposed : a.Opposed b
      · exact Or.inr (Or.inl hopposed)
      · exact Or.inl (outcome_additive_comm .plus hopposed)
    · rw [reduce] at ho
      rcases bind_eq_error_iff.mp ho with ha | ⟨p, -, ho⟩
      · exact Or.inl ha
      · rcases bind_eq_error_iff.mp ho with hb | ⟨q, -, ho⟩
        · exact Or.inr (Or.inl hb)
        · cases ho
    · rw [outcome_reduce_additive, outcome_reduce_additive]
      rcases hopposed with ⟨ha, hb⟩ | ⟨ha, hb⟩
      · rw [ha, hb]
        exact ⟨rfl, rfl⟩
      · rw [ha, hb]
        exact ⟨rfl, rfl⟩
  · refine ⟨toOption_render_mul_comm a b, ?_, fun o ho => ?_, fun hop => ?_⟩
    · rcases outcome_mul_comm a b with hsame | hopposed | hclash
      · exact Or.inl hsame
      · exact Or.inr (Or.inl hopposed)
      · exact Or.inr (Or.inr ⟨rfl, hclash⟩)
    · have hmultiplies := multiplies_reduce a b
      rw [ho] at hmultiplies
      rcases hmultiplies.of_error with ha | hb | ⟨rfl, hclash⟩
      · exact Or.inl ha
      · exact Or.inr (Or.inl hb)
      · exact Or.inr (Or.inr ⟨rfl, rfl, hclash⟩)
    · cases hop

set_option maxRecDepth 20000 in
/-- The product of two sums in both orders, and a sum in which only the operand on the left shows.
-/
theorem reduce_operand_order_examples :
    (scaling .mul (additive .plus (.term (.named "x")) (number 1))
        (additive .minus (.term (.named "x")) (number 2))).reduce.toOption.map TermSum.render =
      (scaling .mul (additive .minus (.term (.named "x")) (number 2))
        (additive .plus (.term (.named "x")) (number 1))).reduce.toOption.map TermSum.render ∧
    (additive .plus (scaling .mul (.term (.named "x")) (.term (.named "y")))
        (scaling .div (number 1) (number 0))).reduce.outcome = .noRule ∧
    (additive .plus (scaling .div (number 1) (number 0))
        (scaling .mul (.term (.named "x")) (.term (.named "y")))).reduce.outcome = .failure := by
  have hopposed : Opposed (scaling .mul (.term (.named "x")) (.term (.named "y")))
      (scaling .div (number 1) (number 0)) := by
    refine Or.inl ⟨?_, ?_⟩ <;> cbv
  refine ⟨(reduce_operand_order (Or.inr rfl) _ _).1, ?_, ?_⟩
  · refine ((reduce_operand_order (Or.inl rfl) _ _).2.2.2 rfl hopposed).1.trans ?_
    cbv
  · refine ((reduce_operand_order (Or.inl rfl) _ _).2.2.2 rfl hopposed).2.trans ?_
    cbv

set_option maxRecDepth 20000 in
/-- A product without a rule hides the division by zero behind it, in a sum and where a sum is
distributed; in the other order the division by zero is met first. -/
theorem reduce_hides_failure :
    (additive .plus (scaling .mul (.term (.named "x")) (.term (.named "y")))
        (scaling .div (number 1) (number 0))).reduce = .error .noRule ∧
    (additive .plus (scaling .div (number 1) (number 0))
        (scaling .mul (.term (.named "x")) (.term (.named "y")))).reduce =
      .error (.divisionByZero 1) ∧
    (scaling .mul (additive .plus (.term (.named "x")) (scaling .div (number 1) (number 0)))
        (binary .power (.term (.named "y")) (number 2))).reduce = .error .noRule ∧
    (scaling .mul (binary .power (.term (.named "y")) (number 2))
        (additive .plus (.term (.named "x")) (scaling .div (number 1) (number 0)))).reduce =
      .error (.divisionByZero 1) ∧
    ¬∀ (op : BinaryOp) (a b : Expr), op = .additive .plus ∨ op = .scaling .mul →
      (binary op a b).reduce.outcome = (binary op b a).reduce.outcome := by
  have hsum : (additive .plus (scaling .mul (.term (.named "x")) (.term (.named "y")))
      (scaling .div (number 1) (number 0))).reduce = .error .noRule := by cbv
  have hswapped : (additive .plus (scaling .div (number 1) (number 0))
      (scaling .mul (.term (.named "x")) (.term (.named "y")))).reduce =
        .error (.divisionByZero 1) := by cbv
  refine ⟨hsum, hswapped, by cbv, by cbv, fun hsame => ?_⟩
  have h := hsame (.additive .plus) (scaling .mul (.term (.named "x")) (.term (.named "y")))
    (scaling .div (number 1) (number 0)) (Or.inl rfl)
  rw [hsum, hswapped] at h
  cases h

end Expr

end LaurentCalc
