import LaurentCalc.Proofs.EmbeddedTexts
import LaurentCalc.Proofs.Polynomial

/-!
# Collections of terms

What a sum amounts to once like terms are collected: a constant, and one coefficient
for each power of each name. The canonical text is read back as an expression for the
sum, so it shows this collection, neither more nor less.
-/

namespace LaurentCalc

set_option autoImplicit false

noncomputable section

/-- A constant and the coefficients of powers; almost all coefficients are zero. -/
abbrev Collection : Type := Int × (String × Int →₀ Int)

/-- What a term contributes. A power with exponent zero is a constant. -/
def Term.share : Term → Collection
  | .number v => (v, 0)
  | .monomial x c k => if k = 0 then (c, 0) else (0, Finsupp.single (x, k) c)

/-- The sum of what the terms contribute, each under its sign. -/
def TermSum.collection : TermSum → Collection
  | .term t => t.share
  | .join .plus l r => l.collection + r.collection
  | .join .minus l r => l.collection - r.collection

namespace Laurent

/-- The Laurent polynomial with the constant and the coefficients of a collection. -/
def ofCollection : Collection →+ Laurent :=
  (Int.castAddHom Laurent).coprod
    (Finsupp.liftAddHom fun key => AddMonoidAlgebra.singleAddHom (Finsupp.single key.1 key.2))

theorem ofCollection_constant (v : Int) : ofCollection (v, 0) = (v : Laurent) := by
  rw [ofCollection, AddMonoidHom.coprod_apply, map_zero, add_zero]
  rfl

theorem ofCollection_single (x : String) (k c : Int) :
    ofCollection (0, Finsupp.single (x, k) c) = .single (Finsupp.single x k) c := by
  rw [ofCollection, AddMonoidHom.coprod_apply, map_zero, zero_add, Finsupp.liftAddHom_apply_single]
  rfl

theorem ofCollection_share (t : Term) : ofCollection t.share = t.value quantity := by
  cases t with
  | number v => exact ofCollection_constant v
  | monomial x c k =>
    rw [Term.share]
    split
    · next hzero =>
      rw [ofCollection_constant, hzero, Term.value, zpow_zero, Units.val_one, mul_one]
    · rw [ofCollection_single, Term.value_monomial]

end Laurent

namespace TermSum

open Laurent

theorem ofCollection_collection (p : TermSum) : ofCollection p.collection = p.laurent := by
  induction p with
  | term t => exact ofCollection_share t
  | join s l r ihl ihr =>
    cases s with
    | plus => rw [collection, map_add, ihl, ihr]; rfl
    | minus => rw [collection, map_sub, ihl, ihr]; rfl

theorem coeff_laurent_zero (p : TermSum) : p.laurent.coeff 0 = p.collection.1 := by
  induction p with
  | term t =>
    cases t with
    | number v => exact (coeff_intCast v 0).trans (if_pos rfl)
    | monomial x c k =>
      simp only [laurent, value, Term.value_monomial, AddMonoidAlgebra.coeff_single,
        Finsupp.single_apply, Finsupp.single_eq_zero, collection, Term.share]
      split <;> rfl
  | join s l r ihl ihr =>
    cases s with
    | plus => exact congrArg₂ (· + ·) ihl ihr
    | minus => exact congrArg₂ (· - ·) ihl ihr

theorem coeff_laurent_single (p : TermSum) (x : String) {k : Int} (hk : k ≠ 0) :
    p.laurent.coeff (Finsupp.single x k) = p.collection.2 (x, k) := by
  induction p with
  | term t =>
    cases t with
    | number v =>
      refine (coeff_intCast v _).trans (if_neg ?_)
      rwa [Finsupp.single_eq_zero]
    | monomial y c e =>
      simp only [laurent, value, Term.value_monomial, AddMonoidAlgebra.coeff_single,
        Finsupp.single_apply, Entry.single_eq_single hk, collection, Term.share]
      by_cases hzero : e = 0
      · rw [if_pos hzero, if_neg]
        · rfl
        · rintro ⟨-, rfl⟩
          exact hk hzero
      · rw [if_neg hzero]
        simp only [Finsupp.single_apply, Prod.mk.injEq]
  | join s l r ihl ihr =>
    cases s with
    | plus => exact congrArg₂ (· + ·) ihl ihr
    | minus => exact congrArg₂ (· - ·) ihl ihr

/-- Powers with exponent zero have gone into the constant. -/
theorem collection_exponent_zero (p : TermSum) (x : String) : p.collection.2 (x, 0) = 0 := by
  induction p with
  | term t =>
    cases t with
    | number v => rfl
    | monomial y c e =>
      rw [collection, Term.share]
      split
      · rfl
      · next hnonzero => exact Finsupp.single_eq_of_ne fun h => hnonzero (congrArg Prod.snd h).symm
  | join s l r ihl ihr =>
    cases s with
    | plus => exact (congrArg₂ (· + ·) ihl ihr).trans (add_zero 0)
    | minus => exact (congrArg₂ (· - ·) ihl ihr).trans (sub_zero 0)

/-- The collection and the Laurent polynomial determine each other. -/
theorem laurent_eq_iff {p q : TermSum} : p.laurent = q.laurent ↔ p.collection = q.collection := by
  constructor
  · intro h
    refine Prod.ext ?_ (Finsupp.ext ?_)
    · rw [← coeff_laurent_zero, h, coeff_laurent_zero]
    · rintro ⟨x, k⟩
      by_cases hk : k = 0
      · rw [hk, collection_exponent_zero, collection_exponent_zero]
      · rw [← coeff_laurent_single p x hk, h, coeff_laurent_single q x hk]
  · intro h
    rw [← ofCollection_collection, h, ofCollection_collection]

end TermSum

section Nesting

theorem Expr.nesting_ofInt_le (n : Int) : (ofInt n).nesting ≤ 1 := by
  unfold ofInt
  split
  · exact Nat.le_refl 1
  · exact Nat.zero_le 1

theorem Expr.nesting_plusSummands_le {first : Expr} {ss : List Summand} {n : Nat}
    (hfirst : first.nesting ≤ n + 1) (hss : ∀ s ∈ ss, s.phrase.nesting ≤ n) :
    (first.plusSummands ss).nesting ≤ n + 1 := by
  induction ss generalizing first with
  | nil => exact hfirst
  | cons s ss ih =>
    refine ih ?_ fun s' hs' => hss s' (List.mem_cons_of_mem s hs')
    have hs := hss s List.mem_cons_self
    rw [nesting]
    omega

namespace Entry

variable (entry : Entry)

theorem nesting_powerPhrase_le : entry.powerPhrase.nesting ≤ 2 := by
  have hexponent := Expr.nesting_ofInt_le entry.exponent
  unfold powerPhrase
  split
  · exact Nat.zero_le 2
  · simp only [Expr.nesting]
    omega

theorem nesting_unsignedPhrase_le : entry.unsignedPhrase.nesting ≤ 3 := by
  have hpower := entry.nesting_powerPhrase_le
  unfold unsignedPhrase
  split
  · omega
  · simp only [Expr.nesting]
    omega

theorem nesting_leadingPhrase_le : entry.leadingPhrase.nesting ≤ 3 := by
  have hpower := entry.nesting_powerPhrase_le
  have hcoefficient := Expr.nesting_ofInt_le entry.coefficient
  unfold leadingPhrase
  split
  · split
    · rw [Expr.nesting]
      omega
    · omega
  · rw [Expr.nesting]
    omega

end Entry

/-- However long a canonical text is, at most four of its phrases are open at a time. -/
theorem Collected.nesting_phrase_le (c : Collected) : c.phrase.nesting ≤ 4 := by
  unfold phrase
  split
  · exact Nat.le_trans (Expr.nesting_ofInt_le c.total) (by decide)
  · next first rest _ =>
    have hfirst := first.nesting_leadingPhrase_le
    refine Expr.nesting_plusSummands_le (by omega) (forall_mem_summands ?_ ?_)
    · intro entry _
      exact entry.nesting_unsignedPhrase_le
    · exact Nat.zero_le 3

end Nesting

theorem Writes.splits {text : String} {e : Expr} (h : Writes .expression text.toList e) :
    Splits (Cursor.ofText text).words (Cursor.ofText text).words [] e :=
  (Embeds.of_writes h).splits.2

/-- A canonical text of names that can be spelled is parsed, to its last token, to an expression for
the same Laurent polynomial; and two sums have the same text exactly if they collect to the same
terms. -/
theorem TermSum.render_reads_back {p q : TermSum} (hp : p.Over Spelled) (hq : q.Over Spelled) :
    (∃ e, Splits (Cursor.ofText p.render).words (Cursor.ofText p.render).words [] e ∧
      (∀ limit, 4 ≤ limit → Expr.parse limit p.render = .ok e) ∧
      Laurent.reading.value e = p.laurent) ∧
    (p.render = q.render ↔ p.collection = q.collection) := by
  have hwrites : Writes .expression p.render.toList p.collected.phrase :=
    Collected.writes_phrase (name_of_mem_collected hp)
  refine ⟨⟨p.collected.phrase, hwrites.splits, fun limit hlimit => ?_, ?_⟩, ?_⟩
  · exact hwrites.parse_eq_ok (Nat.le_trans p.collected.nesting_phrase_le hlimit)
  · exact p.collected.reading_phrase.trans (value_collected p)
  · rw [render_eq_iff hp hq, laurent_eq_iff]

theorem TermSum.render_reads_back_negative_exponent :
    (∃ e, Splits (Cursor.ofText "2*x^-1 - 3").words (Cursor.ofText "2*x^-1 - 3").words [] e ∧
      (∀ limit, 4 ≤ limit → Expr.parse limit "2*x^-1 - 3" = .ok e) ∧
      Laurent.reading.value e =
        (join .minus (.term (.monomial "x" 2 (-1))) (.term (.monomial "x" 3 0))).laurent) ∧
    (join .minus (.term (.monomial "x" 2 (-1))) (.term (.monomial "x" 3 0))).collection =
      (join .plus (number (-3)) (.term (.monomial "x" 2 (-1)))).collection := by
  have hspelled : Spelled "x" := ⟨by decide, List.forall_mem_singleton.mpr rfl⟩
  have hrender : (join .minus (.term (.monomial "x" 2 (-1))) (.term (.monomial "x" 3 0))).render =
      "2*x^-1 - 3" := by cbv
  have hrender' : (join .plus (number (-3)) (.term (.monomial "x" 2 (-1)))).render =
      "2*x^-1 - 3" := by cbv
  have hread := @render_reads_back
    (join .minus (.term (.monomial "x" 2 (-1))) (.term (.monomial "x" 3 0)))
    (join .plus (number (-3)) (.term (.monomial "x" 2 (-1))))
    ⟨hspelled, hspelled⟩ ⟨trivial, hspelled⟩
  rw [hrender, hrender'] at hread
  exact ⟨hread.1, hread.2.mp rfl⟩

end

end LaurentCalc
