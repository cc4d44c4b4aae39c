import LaurentCalc.Proofs.Exponents
import LaurentCalc.Proofs.ReducedOperands
import LaurentCalc.Proofs.RewrittenSums

/-!
# Renaming

Reduction compares names and does nothing else with them. If different names are given
different new ones, an expression reduces as before, to the same sum under the new names.
Only collecting also looks at the order of names; but it is done after products only, and a
product of sums in which two names differ has failed already.
-/

namespace LaurentCalc

set_option autoImplicit false

def Term.rename (s : String → String) : Term → Term
  | .number v => .number v
  | .monomial x c e => .monomial (s x) c e

def TermSum.rename (s : String → String) : TermSum → TermSum
  | .term t => .term (t.rename s)
  | .join a l r => .join a (l.rename s) (r.rename s)

def Expr.rename (s : String → String) : Expr → Expr
  | .term t => .term (t.rename s)
  | .unary op e => .unary op (e.rename s)
  | .binary op l r => .binary op (l.rename s) (r.rename s)

def Obstacle.rename (s : String → String) : Obstacle → Obstacle
  | .noRule => .noRule
  | .divisionByZero numerator => .divisionByZero numerator
  | .zeroToZero power => .zeroToZero (power.rename s)

def Entry.rename (s : String → String) (entry : Entry) : Entry :=
  { entry with name := s entry.name }

def Collected.rename (s : String → String) (c : Collected) : Collected :=
  ⟨c.constant, c.entries.map (Entry.rename s)⟩

variable {s : String → String}

namespace Attempt

variable {α β γ δ : Type}

/-- What comes of an attempt under other names, where `f` is what they make of its value. -/
def rename (s : String → String) (f : α → β) : Attempt α → Attempt β
  | .ok a => .ok (f a)
  | .error o => .error (o.rename s)

theorem rename_bind {x : Attempt α} {f : α → β} {g : γ → δ} {next : α → Attempt γ}
    {next' : β → Attempt δ} (h : ∀ a, x = .ok a → next' (f a) = rename s g (next a)) :
    rename s f x >>= next' = rename s g (x >>= next) := by
  cases x with
  | ok a => exact h a rfl
  | error o => rfl

theorem rename_orIfNoRule {x y : Attempt α} {f : α → β} :
    (rename s f x).orIfNoRule (rename s f y) = rename s f (x.orIfNoRule y) := by
  cases x with
  | ok a => rfl
  | error o => cases o <;> rfl

end Attempt

open Attempt (rename_bind rename_orIfNoRule)

namespace Term

theorem neg_rename (t : Term) : (t.rename s).neg = t.neg.rename s := by cases t <;> rfl

theorem weight_rename (t : Term) : (t.rename s).weight = t.weight := by cases t <;> rfl

theorem power_rename (n : Nat) (t : Term) : (t.rename s).power n = (t.power n).rename s := by
  cases t <;> rfl

theorem rename_injective (hs : Function.Injective s) : Function.Injective (rename s) := by
  intro t u h
  cases t with
  | number v =>
    cases u with
    | number w => exact h
    | monomial y d f => cases h
  | monomial x c e =>
    cases u with
    | number w => cases h
    | monomial y d f =>
      obtain ⟨hname, rfl, rfl⟩ := Term.monomial.inj h
      rw [hs hname]

theorem unite?_rename (hs : Function.Injective s) (a : Sign) (t u : Term) :
    (t.rename s).unite? a (u.rename s) = (t.unite? a u).map (rename s) := by
  cases t with
  | number v => cases u <;> rfl
  | monomial x c e =>
    cases u with
    | number w => rfl
    | monomial y d f =>
      simp only [rename, unite?, hs.eq_iff]
      split <;> rfl

theorem map_quotient_rename (f : Int → Term) (numerator denominator : Int) :
    ((quotient numerator denominator).map fun v => (f v).rename s) =
      Attempt.rename s (rename s) ((quotient numerator denominator).map f) := by
  unfold quotient
  split <;> rfl

theorem scale_rename (hs : Function.Injective s) (op : Scaling) (t u : Term) :
    (t.rename s).scale op (u.rename s) = (t.scale op u).rename s (rename s) := by
  cases op with
  | mul =>
    cases t with
    | number v => cases u <;> rfl
    | monomial x c e =>
      cases u with
      | number w => rfl
      | monomial y d f =>
        simp only [rename, scale, mul, hs.eq_iff]
        split <;> rfl
  | div =>
    cases t with
    | number v =>
      cases u with
      | number w => exact map_quotient_rename .number v w
      | monomial y d f => exact map_quotient_rename (.monomial y · (-f)) v d
    | monomial x c e =>
      cases u with
      | number w => exact map_quotient_rename (.monomial x · e) c w
      | monomial y d f =>
        simp only [rename, scale, div, hs.eq_iff]
        split
        · exact map_quotient_rename (.monomial x · (e - f)) c d
        · rfl

theorem div_rename (hs : Function.Injective s) (t u : Term) :
    (t.rename s).div (u.rename s) = (t.div u).rename s (rename s) := scale_rename hs .div t u

end Term

section Collecting

-- A renaming of the names of one kind that keeps their order.
variable {P : String → Prop} (hs : Function.Injective s)
variable (hlt : ∀ x y, P x → P y → (s x < s y ↔ x < y))
include hs hlt

theorem Entry.insert_rename {x : String} (hx : P x) (e k : Int) {entries : List Entry}
    (hentries : ∀ entry ∈ entries, P entry.name) :
    insert (s x) e k (entries.map (rename s)) = (insert x e k entries).map (rename s) := by
  induction entries with
  | nil => rfl
  | cons entry rest ih =>
    obtain ⟨hentry, hrest⟩ := List.forall_mem_cons.mp hentries
    have hprecedes : Precedes (s x) e (entry.rename s) ↔ Precedes x e entry := by
      simp only [Precedes, sortKey, rename, hs.eq_iff, hlt x entry.name hx hentry]
    have hkey : s x = (entry.rename s).name ∧ e = (entry.rename s).exponent ↔
        x = entry.name ∧ e = entry.exponent := and_congr_left' hs.eq_iff
    rw [List.map_cons, insert, insert, ih hrest]
    simp only [hkey, hprecedes]
    split
    · rfl
    · split <;> rfl

theorem Collected.foldl_add_rename (ts : List Term) {c : Collected} (hts : ∀ t ∈ ts, t.Over P)
    (hc : ∀ entry ∈ c.entries, P entry.name) :
    (ts.map (Term.rename s)).foldl add (c.rename s) = (ts.foldl add c).rename s := by
  induction ts generalizing c with
  | nil => rfl
  | cons t ts ih =>
    obtain ⟨ht, hts⟩ := List.forall_mem_cons.mp hts
    have hadd : (c.rename s).add (t.rename s) = (c.add t).rename s := by
      cases t with
      | number v => rfl
      | monomial x k e =>
        exact congrArg (Collected.mk c.constant) (Entry.insert_rename hs hlt ht e k hc)
    rw [List.map_cons, List.foldl_cons, List.foldl_cons, hadd]
    exact ih hts (name_of_mem_entries_foldl [t] (List.forall_mem_singleton.mpr ht) hc)

end Collecting

namespace Collected

theorem remaining_rename (c : Collected) :
    (c.rename s).remaining = c.remaining.map (Term.rename s) := by
  have hpowers : ((c.rename s).entries.filter (·.coefficient ≠ 0)).map Entry.toTerm =
      ((c.entries.filter (·.coefficient ≠ 0)).map Entry.toTerm).map (Term.rename s) := by
    rw [rename, List.filter_map, List.map_map, List.map_map]
    rfl
  have hconstant : (c.rename s).constant = c.constant := rfl
  simp only [remaining, hpowers, hconstant, List.map_eq_nil_iff]
  split
  · rw [List.map_append]
    rfl
  · rfl

end Collected

namespace TermSum

variable {p : TermSum}

theorem toExpr_rename (p : TermSum) : (p.rename s).toExpr = p.toExpr.rename s := by
  induction p with
  | term t => rfl
  | join a l r ihl ihr => rw [rename, toExpr, ihl, ihr]; rfl

theorem terms_rename (p : TermSum) : (p.rename s).terms = p.terms.map (Term.rename s) := by
  induction p with
  | term t => rfl
  | join a l r ihl ihr =>
    cases a with
    | plus => rw [rename, terms, terms, ihl, ihr, List.map_append]
    | minus =>
      have hneg : Term.neg ∘ Term.rename s = Term.rename s ∘ Term.neg :=
        funext Term.neg_rename
      rw [rename, terms, terms, ihl, ihr, List.map_append, List.map_map, List.map_map, hneg]

theorem isZeroTerm_rename (p : TermSum) : (p.rename s).isZeroTerm = p.isZeroTerm := by
  cases p with
  | term t => simp only [rename, isZeroTerm, Term.weight_rename]
  | join a l r => rfl

theorem neg_rename (p : TermSum) : (p.rename s).neg = p.neg.rename s := by
  induction p with
  | term t => exact congrArg TermSum.term t.neg_rename
  | join a l r ihl ihr => rw [rename, neg, ihl, ihr]; rfl

theorem mapTerms_rename {f f' : Term → Attempt Term}
    (h : ∀ t, f' (t.rename s) = (f t).rename s (Term.rename s)) (p : TermSum) :
    (p.rename s).mapTerms f' = (p.mapTerms f).rename s (rename s) := by
  induction p with
  | term t =>
    rw [rename, mapTerms, h]
    exact rename_bind fun v _ => rfl
  | join a l r ihl ihr =>
    rw [rename, mapTerms, ihl, ihr]
    exact rename_bind fun l' _ => rename_bind fun r' _ => rfl

theorem plusTerms_rename (ts : List Term) (first : TermSum) :
    plusTerms (first.rename s) (ts.map (Term.rename s)) = (plusTerms first ts).rename s := by
  induction ts generalizing first with
  | nil => rfl
  | cons t ts ih => exact ih (.join .plus first (.term t))

section Injective

variable (hs : Function.Injective s)
include hs

theorem rename_injective : Function.Injective (rename s) := by
  intro p
  induction p with
  | term t =>
    intro q h
    cases q with
    | term u => rw [Term.rename_injective hs (TermSum.term.inj h)]
    | join b l r => cases h
  | join a l r ihl ihr =>
    intro q h
    cases q with
    | term u => cases h
    | join b l' r' =>
      obtain ⟨rfl, hl, hr⟩ := TermSum.join.inj h
      rw [ihl hl, ihr hr]

theorem unite_rename (a : Sign) (p q : TermSum) :
    unite a (p.rename s) (q.rename s) = (unite a p q).rename s := by
  cases p with
  | join b l r => rfl
  | term t =>
    cases q with
    | join b l r => rfl
    | term u =>
      simp only [rename, unite, Term.unite?_rename hs]
      cases t.unite? a u <;> rfl

theorem united_rename (p : TermSum) : (p.rename s).united = p.united.rename s := by
  induction p with
  | term t => rfl
  | join a l r ihl ihr => rw [rename, united, ihl, ihr, unite_rename hs, united]

theorem negated_rename (p : TermSum) : (p.rename s).negated = p.negated.rename s := by
  cases p with
  | term t => exact congrArg TermSum.term t.neg_rename
  | join a l r =>
    rw [rename, negated, united_rename hs, united_rename hs, neg_rename, neg_rename]
    rfl

theorem mul_rename (p q : TermSum) :
    (p.rename s).mul (q.rename s) = (p.mul q).rename s (rename s) := by
  induction p with
  | term t => exact mapTerms_rename (fun u => Term.scale_rename hs .mul u t) q
  | join a l r ihl ihr =>
    rw [rename, mul, ihl, ihr]
    exact rename_bind fun l' _ => rename_bind fun r' _ => rfl

theorem divTerm_rename (t : Term) (q : TermSum) :
    divTerm (t.rename s) (q.rename s) = (divTerm t q).rename s (rename s) := by
  rw [divTerm, divTerm, united_rename hs]
  cases q.united with
  | term u =>
    simp only [rename, Term.div_rename hs]
    exact rename_bind fun v _ => rfl
  | join a l r => rfl

theorem div_rename (p q : TermSum) :
    (p.rename s).div (q.rename s) = (p.div q).rename s (rename s) := by
  induction p with
  | term t => exact divTerm_rename hs t q
  | join a l r ihl ihr =>
    have hunited : ((join a l r).rename s).united = (q.rename s).united ↔
        (join a l r).united = q.united := by
      rw [united_rename hs, united_rename hs]
      exact (rename_injective hs).eq_iff
    rw [rename] at hunited
    rw [rename, div, ihl, ihr, div, ← rename_orIfNoRule]
    congr 1
    · exact rename_bind fun l' _ => rename_bind fun r' _ => rfl
    · simp only [hunited]
      split <;> rfl

theorem scale_rename (op : Scaling) (p q : TermSum) :
    (p.rename s).scale op (q.rename s) = (p.scale op q).rename s (rename s) := by
  cases op with
  | mul => exact mul_rename hs p q
  | div => exact div_rename hs p q

/-- Collecting agrees with a renaming that keeps the order of the names in the sum. -/
theorem collect_rename {P : String → Prop} (hlt : ∀ x y, P x → P y → (s x < s y ↔ x < y))
    (hp : p.Over P) : (p.rename s).collect = p.collect.rename s := by
  have hcollected : (p.rename s).collected = p.collected.rename s := by
    rw [collected, terms_rename]
    exact Collected.foldl_add_rename (c := .empty) hs hlt p.terms (over_of_mem_terms hp)
      fun _ hentry => absurd hentry List.not_mem_nil
  rw [collect, collect, hcollected, Collected.remaining_rename]
  cases p.collected.remaining with
  | nil => rfl
  | cons t ts => exact plusTerms_rename ts (.term t)

/-- Where all names are the same there is no order among them that a renaming could change. -/
theorem mulRepeatedly_rename {P : String → Prop} (hsame : ∀ x y, P x → P y → x = y)
    {factor : TermSum} (n : Nat) (hfactor : factor.Over P) (hp : p.Over P) :
    mulRepeatedly (factor.rename s) n (p.rename s) =
      (mulRepeatedly factor n p).rename s (rename s) := by
  have hlt : ∀ x y, P x → P y → (s x < s y ↔ x < y) := by
    intro x y hx hy
    rw [hsame x y hx hy]
    exact iff_of_false (lt_irrefl _) (lt_irrefl _)
  induction n generalizing p with
  | zero => rfl
  | succ n ih =>
    rw [mulRepeatedly, mulRepeatedly, mul_rename hs]
    apply rename_bind
    intro next hnext
    have hover : next.Over P := over_mul hp hfactor hnext
    rw [collect_rename hs hlt hover]
    exact ih (over_collect hover)

theorem power_rename (n : Nat) (p : TermSum) :
    (p.rename s).power n = (p.power n).rename s (rename s) := by
  cases p with
  | term t => exact congrArg (Except.ok ∘ TermSum.term) (Term.power_rename n t)
  | join a l r =>
    change mulRepeatedly ((join a l r).rename s) (n - 1) ((join a l r).rename s) =
      (mulRepeatedly (join a l r) (n - 1) (join a l r)).rename s (rename s)
    -- The first product fails if two names differ, before anything is collected.
    cases hsquare : (join a l r).mul (join a l r) with
    | ok square =>
      have hsame := sameNames_of_mul hsquare
      have hover : (join a l r).Over (· ∈ (join a l r).names) := over_iff.mpr fun _ hx => hx
      exact mulRepeatedly_rename hs (fun x y hx hy => hsame x hx y hy) (n - 1) hover hover
    | error o =>
      cases n - 1 with
      | zero => rfl
      | succ m => rw [mulRepeatedly, mulRepeatedly, mul_rename hs, hsquare]; rfl

end Injective

end TermSum

theorem Obstacle.kind_rename (o : Obstacle) : (o.rename s).kind = o.kind := by cases o <;> rfl

namespace Expr

variable {e : Expr}

theorem eq_term_of_rename {t : Term} (h : e.rename s = .term t) : ∃ u, e = .term u := by
  cases e with
  | term u => exact ⟨u, rfl⟩
  | unary op e => cases h
  | binary op l r => cases h

theorem eq_unary_of_rename {op : UnaryOp} {f : Expr} (h : e.rename s = .unary op f) :
    ∃ g, e = .unary op g := by
  cases e with
  | term u => cases h
  | unary op' e =>
    cases h
    exact ⟨e, rfl⟩
  | binary op l r => cases h

theorem eq_additive_of_rename {a : Sign} {x y : Expr} (h : e.rename s = .additive a x y) :
    ∃ x' y', e = .additive a x' y' := by
  cases e with
  | term u => cases h
  | unary op e => cases h
  | binary op l r =>
    cases h
    exact ⟨l, r, rfl⟩

theorem reduce_power_rename (hs : Function.Injective s) {l r : Expr}
    (hbase : (l.rename s).reduce = l.reduce.rename s (TermSum.rename s))
    (hexponent : (r.rename s).reduce = r.reduce.rename s (TermSum.rename s)) :
    ((binary .power l r).rename s).reduce =
      (binary .power l r).reduce.rename s (TermSum.rename s) := by
  cases hr : r.reduce with
  | error o =>
    rw [hr] at hexponent
    rw [rename, reduce, reduce, hexponent, hr]
    rfl
  | ok p =>
    rw [hr] at hexponent
    cases p with
    | join a p q =>
      rw [rename, reduce, reduce, hexponent, hr]
      rfl
    | term t =>
      cases t with
      | monomial x c k =>
        rw [rename, reduce, reduce, hexponent, hr]
        rfl
      | number n =>
        by_cases hzero : n = 0
        · subst hzero
          rw [rename, reduce_zeroth_power _ hexponent, reduce_zeroth_power l hr, hbase]
          cases l.reduce with
          | ok base =>
            simp only [Attempt.rename, TermSum.isZeroTerm_rename]
            split <;> rfl
          | error o => cases o <;> rfl
        · rw [rename, reduce_nonzero_power _ hexponent hzero, reduce_nonzero_power l hr hzero,
            hbase]
          split
          · rfl
          · exact rename_bind fun base _ => TermSum.power_rename hs n.toNat base

/-- Under other names an expression reduces as before, to the same sum or up to the same obstacle.
-/
theorem reduce_rename (hs : Function.Injective s) (e : Expr) :
    (e.rename s).reduce = e.reduce.rename s (TermSum.rename s) := by
  induction e using (reduceInduction fun op l r =>
    distribute op (l.rename s) (r.rename s) = (distribute op l r).rename s (TermSum.rename s)) with
  | term t =>
    rw [rename, reduce, reduce]
    rfl
  | plus e ih => rw [rename, reduce, reduce, ih]
  | minus e ih =>
    rw [rename, reduce, reduce, ih]
    exact rename_bind fun p _ => congrArg Except.ok (TermSum.negated_rename hs p)
  | unknownSign =>
    rw [rename, reduce, reduce]
    rfl
  | additive a l r ihl ihr =>
    rw [rename, reduce, reduce, ihl, ihr]
    exact rename_bind fun p _ => rename_bind fun q _ =>
      congrArg Except.ok (TermSum.unite_rename hs a p q)
  | mul l r ih => rw [rename, reduce, reduce, ih]
  | div l r ih ihl ihr =>
    rw [rename, reduce, reduce, ih, ihl, ihr, ← rename_orIfNoRule]
    congr 1
    refine rename_bind fun p _ => rename_bind fun q _ => ?_
    simp only [(TermSum.rename_injective hs).eq_iff]
    split <;> rfl
  | power l r ihr ihl => exact reduce_power_rename hs ihl ihr
  | unknownOperator =>
    rw [rename, reduce, reduce]
    rfl
  | terms op t u =>
    simp only [rename, distribute, Term.scale_rename hs]
    exact rename_bind fun v _ => rfl
  | termMulSum t a x y ihx ihy =>
    simp only [rename] at ihx ihy ⊢
    simp only [distribute, ihx, ihy]
    exact rename_bind fun p _ => rename_bind fun q _ => rfl
  | termDivSum t a x y ih =>
    simp only [rename] at ih ⊢
    simp only [distribute, ih]
    refine rename_bind fun q _ => ?_
    cases q with
    | term u =>
      simp only [TermSum.rename, Term.div_rename hs]
      exact rename_bind fun v _ => rfl
    | join b l r => rfl
  | sumSigned op a x y sign e ihl ihr =>
    simp only [rename] at ihl ihr ⊢
    simp only [distribute, ihl, ihr]
    exact rename_bind fun p _ => rename_bind fun q _ => TermSum.scale_rename hs op p q
  | sum op a x y r hsign ihx ihy =>
    have hsign' : ∀ sign e, r.rename s = .unary sign e → False := by
      intro sign e h
      obtain ⟨e', rfl⟩ := eq_unary_of_rename h
      exact hsign sign e' rfl
    simp only [rename] at ihx ihy ⊢
    rw [distribute, distribute, ihx, ihy]
    · exact rename_bind fun p _ => rename_bind fun q _ => rfl
    · exact hsign
    · exact hsign'
  | operands op l r h₁ h₂ h₃ h₄ ihl ihr =>
    -- The operands have the same shapes under other names, so the same rule applies.
    have h₁' : ∀ t u, l.rename s = .term t → r.rename s = .term u → False := by
      intro t u hl hr
      obtain ⟨t', rfl⟩ := eq_term_of_rename hl
      obtain ⟨u', rfl⟩ := eq_term_of_rename hr
      exact h₁ t' u' rfl rfl
    have h₂' : ∀ t a x y, l.rename s = .term t → r.rename s = .additive a x y → False := by
      intro t a x y hl hr
      obtain ⟨t', rfl⟩ := eq_term_of_rename hl
      obtain ⟨x', y', rfl⟩ := eq_additive_of_rename hr
      exact h₂ t' a x' y' rfl rfl
    have h₃' : ∀ a x y sign e, l.rename s = .additive a x y → r.rename s = .unary sign e →
        False := by
      intro a x y sign e hl hr
      obtain ⟨x', y', rfl⟩ := eq_additive_of_rename hl
      obtain ⟨e', rfl⟩ := eq_unary_of_rename hr
      exact h₃ a x' y' sign e' rfl rfl
    have h₄' : ∀ a x y, l.rename s = .additive a x y → False := by
      intro a x y hl
      obtain ⟨x', y', rfl⟩ := eq_additive_of_rename hl
      exact h₄ a x' y' rfl
    rw [distribute, distribute, ihl, ihr]
    · exact rename_bind fun p _ => rename_bind fun q _ => TermSum.scale_rename hs op p q
    all_goals assumption

theorem tree_rename (x : Attempt TermSum) :
    (x.rename s (TermSum.rename s)).tree = x.tree.rename s (Expr.rename s) := by
  cases x with
  | ok p => exact congrArg Except.ok (TermSum.toExpr_rename p)
  | error o => rfl

/-- Reduction does not look at names: where different names stay different, the tree to which an
expression reduces is the same under the new names, term for term, an expression without a rule
has none, and one that fails fails in the same way. -/
theorem reduce_under_other_names (hs : Function.Injective s) (e : Expr) :
    (∀ t, e.reduce.tree = .ok t → (e.rename s).reduce.tree = .ok (t.rename s)) ∧
    (e.reduce.tree = .error .noRule → (e.rename s).reduce.tree = .error .noRule) ∧
    (∀ o, e.reduce.tree = .error o →
      (e.rename s).reduce.tree = .error (o.rename s) ∧ (o.rename s).kind = o.kind) := by
  have htree : (e.rename s).reduce.tree = e.reduce.tree.rename s (Expr.rename s) := by
    rw [reduce_rename hs, tree_rename]
  refine ⟨fun t ht => ?_, fun ho => ?_, fun o ho => ⟨?_, o.kind_rename⟩⟩
  · rw [htree, ht]
    rfl
  · rw [htree, ho]
    rfl
  · rw [htree, ho]
    rfl

set_option maxRecDepth 20000 in
/-- The order of the names is turned round, but not that of the terms. -/
theorem reduce_under_other_names_swapped :
    Function.Injective (Equiv.swap "x" "y") ∧
    (additive .plus (binary .power (additive .minus (number 1) (.term (.named "y"))) (number 2))
      (.term (.named "x"))).reduce.tree =
        .ok (additive .plus (additive .plus (additive .plus (.term (.monomial "y" 1 2))
          (.term (.monomial "y" (-2) 1))) (number 1)) (.term (.named "x"))) ∧
    ((additive .plus (binary .power (additive .minus (number 1) (.term (.named "y"))) (number 2))
      (.term (.named "x"))).rename (Equiv.swap "x" "y")).reduce.tree =
        .ok (additive .plus (additive .plus (additive .plus (.term (.monomial "x" 1 2))
          (.term (.monomial "x" (-2) 1))) (number 1)) (.term (.named "y"))) := by
  have htree : (additive .plus (binary .power (additive .minus (number 1) (.term (.named "y")))
      (number 2)) (.term (.named "x"))).reduce.tree =
        .ok (additive .plus (additive .plus (additive .plus (.term (.monomial "y" 1 2))
          (.term (.monomial "y" (-2) 1))) (number 1)) (.term (.named "x"))) := by cbv
  have hinjective : Function.Injective (Equiv.swap "x" "y") := Equiv.injective _
  exact ⟨hinjective, htree, (reduce_under_other_names hinjective _).1 _ htree⟩

end Expr

end LaurentCalc
