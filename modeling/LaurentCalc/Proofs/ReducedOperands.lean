import LaurentCalc.Proofs.Laurent
import LaurentCalc.Proofs.Marks
import LaurentCalc.Proofs.Names
import LaurentCalc.Proofs.Obstacles

/-!
# Operations on operands that reduce

Signs, sums and differences of operands that reduce always reduce. A product of such
operands reduces exactly if no name of the one differs from a name of the other, and
lacks a rule otherwise. The results are those of the Laurent polynomials, whatever the
operands are made of and however they are taken apart.
-/

namespace LaurentCalc

set_option autoImplicit false

namespace TermSum

def names : TermSum → List String
  | .term t => t.names
  | .join _ l r => l.names ++ r.names

/-- No name of the one sum differs from a name of the other. -/
def SameNames (p q : TermSum) : Prop := ∀ x ∈ p.names, ∀ y ∈ q.names, x = y

variable {p q r l m : TermSum} {x : String}

theorem over_iff {P : String → Prop} : p.Over P ↔ ∀ x ∈ p.names, P x := by
  induction p with
  | term t =>
    cases t with
    | number v => simp [Over, Term.Over, names]
    | monomial x c e => simp [Over, Term.Over, names]
  | join s l r ihl ihr =>
    rw [names, List.forall_mem_append, ← ihl, ← ihr]
    rfl

/-- Uniting like terms loses no name. -/
theorem mem_names_unite (s : Sign) (p q : TermSum) :
    x ∈ (unite s p q).names ↔ x ∈ p.names ∨ x ∈ q.names := by
  unfold unite
  split
  · next t u =>
    split
    · next v hunite =>
      cases Term.unites_of_unite? hunite with
      | numbers a b => exact (or_self_iff).symm
      | multiples y c d e => exact (or_self_iff).symm
    · exact List.mem_append
  · exact List.mem_append

theorem over_unite_iff {P : String → Prop} (s : Sign) :
    (unite s p q).Over P ↔ p.Over P ∧ q.Over P := by
  simp only [over_iff, mem_names_unite, or_imp, forall_and]

theorem sameNames_comm : p.SameNames q ↔ q.SameNames p := by
  constructor
  · intro h x hx y hy
    exact (h y hy x hx).symm
  · intro h x hx y hy
    exact (h y hy x hx).symm

theorem sameNames_of_mem_iff (h : ∀ x, x ∈ m.names ↔ x ∈ l.names ∨ x ∈ r.names) :
    m.SameNames q ↔ l.SameNames q ∧ r.SameNames q := by
  constructor
  · intro hm
    exact ⟨fun x hx => hm x ((h x).mpr (Or.inl hx)), fun x hx => hm x ((h x).mpr (Or.inr hx))⟩
  · rintro ⟨hl, hr⟩ x hx
    rcases (h x).mp hx with hx | hx
    · exact hl x hx
    · exact hr x hx

theorem sameNames_join (s : Sign) : (join s l r).SameNames q ↔ l.SameNames q ∧ r.SameNames q :=
  sameNames_of_mem_iff fun _ => List.mem_append

theorem sameNames_unite (s : Sign) : (unite s l r).SameNames q ↔ l.SameNames q ∧ r.SameNames q :=
  sameNames_of_mem_iff fun _ => mem_names_unite s l r

theorem sameNames_of_term_mul {t u v : Term} (h : t.mul u = .ok v) :
    (term t).SameNames (term u) := by
  intro x hx y hy
  cases t with
  | number a => cases hx
  | monomial z c e =>
    cases u with
    | number b => cases hy
    | monomial w d f =>
      obtain rfl := List.mem_singleton.mp hx
      obtain rfl := List.mem_singleton.mp hy
      by_contra hne
      rw [Term.mul, if_neg hne] at h
      cases h

/-- Each term of the one sum is multiplied by each of the other, so their names agree. -/
theorem sameNames_of_mul (h : p.mul q = .ok m) : p.SameNames q := by
  induction p generalizing m with
  | term t =>
    rw [mul] at h
    induction q generalizing m with
    | term u =>
      obtain ⟨v, hv, -⟩ := bind_eq_ok_iff.mp h
      exact sameNames_comm.mp (sameNames_of_term_mul hv)
    | join s l r ihl ihr =>
      obtain ⟨l', hl, h⟩ := bind_eq_ok_iff.mp h
      obtain ⟨r', hr, -⟩ := bind_eq_ok_iff.mp h
      apply sameNames_comm.mp
      exact (sameNames_join s).mpr ⟨sameNames_comm.mp (ihl hl), sameNames_comm.mp (ihr hr)⟩
  | join s l r ihl ihr =>
    obtain ⟨l', hl, h⟩ := bind_eq_ok_iff.mp h
    obtain ⟨r', hr, -⟩ := bind_eq_ok_iff.mp h
    exact (sameNames_join s).mpr ⟨ihl hl, ihr hr⟩

theorem laurent_unite (s : Sign) (p q : TermSum) :
    (unite s p q).laurent = s.combine p.laurent q.laurent := value_unite s p q

end TermSum

/-- The attempt comes to a sum with the given polynomial if the condition holds, and has no rule if
it does not. -/
inductive ComesTo (condition : Prop) (value : Laurent) : Attempt TermSum → Prop where
  | reduced {m : TermSum} (h : condition) (hm : m.laurent = value) :
      ComesTo condition value (.ok m)
  | noRule (h : ¬condition) : ComesTo condition value (.error .noRule)

namespace ComesTo

variable {condition : Prop} {value : Laurent} {x y : Attempt TermSum}

theorem exists_iff (h : ComesTo condition value x) : (∃ m, x = .ok m) ↔ condition := by
  cases h with
  | reduced h hm => exact ⟨fun _ => h, fun _ => ⟨_, rfl⟩⟩
  | noRule hnot =>
    constructor
    · rintro ⟨m, hm⟩
      cases hm
    · exact fun h => absurd h hnot

theorem laurent_eq {m : TermSum} (h : ComesTo condition value (.ok m)) : m.laurent = value := by
  cases h with
  | reduced h hm => exact hm

theorem eq_noRule {o : Obstacle} (h : ComesTo condition value (.error o)) : o = .noRule := by
  cases h with
  | noRule hnot => rfl

theorem eq_error_noRule (h : ComesTo condition value x) (hnot : ¬condition) :
    x = .error .noRule := by
  cases h with
  | reduced h hm => exact absurd h hnot
  | noRule _ => rfl

/-- Two attempts at the same polynomial reduce together and have the same text. -/
theorem map_render_eq (hx : ComesTo condition value x) (hy : ComesTo condition value y) :
    x.map TermSum.render = y.map TermSum.render := by
  cases hx with
  | noRule hnot =>
    rw [hy.eq_error_noRule hnot]
  | reduced h hm =>
    cases hy with
    | noRule hnot => exact absurd h hnot
    | reduced h' hm' =>
      exact congrArg Except.ok (TermSum.render_eq_of_laurent_eq (hm.trans hm'.symm))

end ComesTo

/-- The attempt comes out as the product of two sums: as a sum with the product of their polynomials
if their names are the same, and without a rule if they are not. -/
inductive IsProduct (p q : TermSum) : Attempt TermSum → Prop where
  | reduced {m : TermSum} (hnames : p.SameNames q) (hm : m.laurent = p.laurent * q.laurent) :
      IsProduct p q (.ok m)
  | noRule (hnames : ¬p.SameNames q) : IsProduct p q (.error .noRule)

namespace IsProduct

open TermSum

variable {p q r : TermSum} {x y : Attempt TermSum}

theorem mul (p q : TermSum) : IsProduct p q (p.mul q) := by
  cases h : p.mul q with
  | ok m => exact reduced (sameNames_of_mul h) (value_mul h)
  | error o =>
    obtain rfl : o = .noRule := meets_mul (P := (· = .noRule)) rfl p q o h
    apply noRule
    intro hnames
    obtain ⟨m, hm⟩ := TermSum.exists_mul (P := (· ∈ p.names)) (Q := (· ∈ q.names))
      (fun x y hx hy => hnames x hx y hy) (over_iff.mpr fun _ hx => hx)
      (over_iff.mpr fun _ hy => hy)
    rw [hm] at h
    cases h

theorem comm (h : IsProduct p q x) : IsProduct q p x := by
  cases h with
  | reduced hnames hm => exact reduced (sameNames_comm.mp hnames) (hm.trans (mul_comm _ _))
  | noRule hnames => exact noRule fun h => hnames (sameNames_comm.mp h)

/-- Both sides of a sum are multiplied by the same factor; it does not matter whether like terms of
the sum were united before. -/
theorem join (s : Sign) (hx : IsProduct p r x) (hy : IsProduct q r y) :
    IsProduct (p.unite s q) r (do let a ← x; let b ← y; return .join s a b) := by
  cases hx with
  | noRule hnames => exact noRule fun h => hnames ((sameNames_unite s).mp h).1
  | reduced hnames hm =>
    cases hy with
    | noRule hnames' => exact noRule fun h => hnames' ((sameNames_unite s).mp h).2
    | reduced hnames' hm' =>
      apply reduced ((sameNames_unite s).mpr ⟨hnames, hnames'⟩)
      rw [laurent_unite, Sign.combine_mul, ← hm, ← hm']
      rfl

theorem comesTo (h : IsProduct p q x) : ComesTo (p.SameNames q) (p.laurent * q.laurent) x := by
  cases h with
  | reduced hnames hm => exact .reduced hnames hm
  | noRule hnames => exact .noRule hnames

end IsProduct

namespace Expr

variable {a b l r : Expr} {p q : TermSum}

theorem reduce_additive_eq_ok {s : Sign} (h : (additive s l r).reduce = .ok p) :
    ∃ p₁ p₂, l.reduce = .ok p₁ ∧ r.reduce = .ok p₂ ∧ p₁.unite s p₂ = p := by
  rw [reduce] at h
  obtain ⟨p₁, hp₁, h⟩ := bind_eq_ok_iff.mp h
  obtain ⟨p₂, hp₂, h⟩ := bind_eq_ok_iff.mp h
  exact ⟨p₁, p₂, hp₁, hp₂, Except.ok.inj h⟩

/-- However a product is distributed over its operands, the sums to which they reduce are multiplied
in the end: what holds of the product of two sums, whichever of them stands first, and passes from
the sides of a sum to the whole, holds of the outcome. -/
theorem mulInduction {motive : TermSum → TermSum → Attempt TermSum → Prop}
    (mul : ∀ p q, motive p q (p.mul q)) (comm : ∀ p q x, motive p q x → motive q p x)
    (join : ∀ s p q r x y, motive p r x → motive q r y →
      motive (p.unite s q) r (do let a ← x; let b ← y; return .join s a b))
    (hl : l.reduce = .ok p) (hr : r.reduce = .ok q) : motive p q (scaling .mul l r).reduce := by
  -- A side of a sum takes the place of the sum, so the products that are reduced on the way are no
  -- parts of the given one; the induction follows them.
  have hproduct : ∀ e l r p q, e = scaling .mul l r → l.reduce = .ok p → r.reduce = .ok q →
      motive p q e.reduce := by
    intro e
    induction e using (reduceInduction fun s l r => ∀ p q, s = .mul → l.reduce = .ok p →
      r.reduce = .ok q → motive p q (distribute s l r)) with
    | mul l r ih =>
      rintro _ _ p q ⟨⟩ hl hr
      rw [reduce]
      exact ih p q rfl hl hr
    | terms s t u p q hs hl hr =>
      subst hs
      rw [reduce] at hl hr
      obtain rfl := Except.ok.inj hl
      obtain rfl := Except.ok.inj hr
      rw [distribute]
      exact comm _ _ _ (mul (.term u) (.term t))
    | termMulSum t s x y ihx ihy p q hs hl hr =>
      obtain ⟨q₁, q₂, hq₁, hq₂, rfl⟩ := reduce_additive_eq_ok hr
      -- The factor is put behind both sides of the sum.
      have hx := ihx x (.term t) q₁ p rfl hq₁ hl
      have hy := ihy y (.term t) q₂ p rfl hq₂ hl
      simp only [distribute]
      exact comm _ _ _ (join s _ _ _ _ _ hx hy)
    | termDivSum t s x y ih p q hs => cases hs
    | sumSigned s t x y op e ihl ihr p q hs hl hr =>
      subst hs
      simp only [distribute, hl, hr, ok_bind]
      exact mul p q
    | sum s t x y r hsign ihx ihy p q hs hl hr =>
      subst hs
      obtain ⟨p₁, p₂, hp₁, hp₂, rfl⟩ := reduce_additive_eq_ok hl
      have hx := ihx x r p₁ q rfl hp₁ hr
      have hy := ihy y r p₂ q rfl hp₂ hr
      rw [distribute]
      · exact join t _ _ _ _ _ hx hy
      · exact hsign
    | operands s l r h₁ h₂ h₃ h₄ ihl ihr p q hs hl hr =>
      subst hs
      rw [distribute]
      · simp only [hl, hr, ok_bind]
        exact mul p q
      all_goals assumption
    | _ =>
      intro l r p q h
      cases h
  exact hproduct _ l r p q rfl hl hr

/-- A product comes out as the product of the sums to which its operands reduce. -/
theorem isProduct_reduce_mul (hl : l.reduce = .ok p) (hr : r.reduce = .ok q) :
    IsProduct p q (scaling .mul l r).reduce :=
  mulInduction IsProduct.mul (fun _ _ _ => IsProduct.comm)
    (fun s _ _ _ _ _ => IsProduct.join s) hl hr

/-- A product has no names but those of the sums to which its operands reduce. -/
theorem over_reduce_mul {P : String → Prop} {m : TermSum} (hl : l.reduce = .ok p)
    (hr : r.reduce = .ok q) (hp : p.Over P) (hq : q.Over P)
    (h : (scaling .mul l r).reduce = .ok m) : m.Over P := by
  refine mulInduction (motive := fun p q x => p.Over P → q.Over P → ∀ m, x = .ok m → m.Over P)
    ?_ ?_ ?_ hl hr hp hq m h
  · intro p q hp hq m hm
    exact TermSum.over_mul hp hq hm
  · intro p q x hx hq hp
    exact hx hp hq
  · intro s p q r x y hx hy hpq hr m hm
    obtain ⟨a, ha, hm⟩ := bind_eq_ok_iff.mp hm
    obtain ⟨b, hb, hm⟩ := bind_eq_ok_iff.mp hm
    obtain rfl := Except.ok.inj hm
    obtain ⟨hp, hq⟩ := (TermSum.over_unite_iff s).mp hpq
    exact ⟨hx hp hr a ha, hy hq hr b hb⟩

/-- Signs, sums and differences of operands that reduce always reduce, and so do products of
operands in which all names are the same; other products have no rule. The polynomials are those of
the operations, and it does not matter in which order a product is taken. -/
theorem reduce_operations (ha : a.reduce = .ok p) (hb : b.reduce = .ok q) :
    (∃ m, (unary (.sign .plus) a).reduce = .ok m ∧ m.laurent = p.laurent) ∧
    (∃ m, (unary (.sign .minus) a).reduce = .ok m ∧ m.laurent = -p.laurent) ∧
    (∃ m, (additive .plus a b).reduce = .ok m ∧ m.laurent = p.laurent + q.laurent) ∧
    (∃ m, (additive .minus a b).reduce = .ok m ∧ m.laurent = p.laurent - q.laurent) ∧
    ((∃ m, (scaling .mul a b).reduce = .ok m) ↔ p.SameNames q) ∧
    (∀ m, (scaling .mul a b).reduce = .ok m → m.laurent = p.laurent * q.laurent) ∧
    (∀ o, (scaling .mul a b).reduce = .error o → o = .noRule) ∧
    (scaling .mul a b).reduce.map TermSum.render =
      (scaling .mul b a).reduce.map TermSum.render := by
  have hab := (isProduct_reduce_mul ha hb).comesTo
  have hba := (isProduct_reduce_mul hb ha).comm.comesTo
  refine ⟨⟨p, ?_, rfl⟩, ⟨p.negated, ?_, TermSum.value_negated p⟩,
    ⟨p.unite .plus q, ?_, TermSum.laurent_unite .plus p q⟩,
    ⟨p.unite .minus q, ?_, TermSum.laurent_unite .minus p q⟩, hab.exists_iff, ?_, ?_,
    hab.map_render_eq hba⟩
  · rw [reduce, ha]
  · rw [reduce, ha, ok_bind, pure_eq_ok]
  · rw [reduce, ha, hb, ok_bind, ok_bind, pure_eq_ok]
  · rw [reduce, ha, hb, ok_bind, ok_bind, pure_eq_ok]
  · intro m hm
    rw [hm] at hab
    exact hab.laurent_eq
  · intro o ho
    rw [ho] at hab
    exact hab.eq_noRule

set_option maxRecDepth 20000 in
/-- A quotient times a power, and a product that fails for a name with coefficient zero. -/
theorem reduce_operations_quotient_and_zero :
    (∃ m, (scaling .mul
        (scaling .div (additive .plus (.term (.monomial "x" 6 2)) (number 4)) (number 2))
        (binary .power (additive .minus (.term (.named "x")) (number 3)) (number 2))).reduce =
          .ok m ∧
      m.laurent = (TermSum.join .plus (.term (.monomial "x" 3 2)) (.number 2)).laurent *
        (TermSum.join .plus (.join .plus (.term (.monomial "x" 1 2)) (.term (.monomial "x" (-6) 1)))
          (.number 9)).laurent) ∧
    (scaling .mul (.term (.named "x"))
      (additive .minus (.term (.named "y")) (.term (.named "y")))).reduce = .error .noRule := by
  have hquotient : (scaling .div (additive .plus (.term (.monomial "x" 6 2)) (number 4))
      (number 2)).reduce = .ok (.join .plus (.term (.monomial "x" 3 2)) (.number 2)) := by cbv
  have hpower : (binary .power (additive .minus (.term (.named "x")) (number 3))
      (number 2)).reduce = .ok (.join .plus (.join .plus (.term (.monomial "x" 1 2))
        (.term (.monomial "x" (-6) 1))) (.number 9)) := by cbv
  have hname : (Expr.term (.named "x")).reduce = .ok (.term (.monomial "x" 1 1)) := by cbv
  have hzero : (additive .minus (.term (.named "y")) (.term (.named "y"))).reduce =
      .ok (.term (.monomial "y" 0 1)) := by cbv
  obtain ⟨-, -, -, -, hsame, hproduct, -, -⟩ := reduce_operations hquotient hpower
  obtain ⟨-, -, -, -, hsame', -, hrule, -⟩ := reduce_operations hname hzero
  constructor
  · obtain ⟨m, hm⟩ := hsame.mpr (by simp [TermSum.SameNames, TermSum.names])
    exact ⟨m, hm, hproduct m hm⟩
  · cases hreduce : (scaling .mul (.term (.named "x"))
        (additive .minus (.term (.named "y")) (.term (.named "y")))).reduce with
    | ok m =>
      have hxy := hsame'.mp ⟨m, hreduce⟩
      simp [TermSum.SameNames, TermSum.names] at hxy
    | error o => rw [hrule o hreduce]

end Expr

end LaurentCalc
