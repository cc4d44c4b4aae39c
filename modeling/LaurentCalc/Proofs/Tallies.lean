import LaurentCalc.Proofs.SortedEntries
import LaurentCalc.Proofs.Marks

/-!
# Tallies of coefficients

How much the terms of a sum amount to, mark by mark. Uniting like terms does not change a
tally, and collecting reads the tallies off: the constant is the tally of the numbers, and
the coefficient of an entry that of its power.
-/

namespace LaurentCalc

set_option autoImplicit false

def Term.tally (mark : Option (String × Int)) (t : Term) : Int :=
  if t.mark = mark then t.weight else 0

/-- The coefficients of the terms with the given mark added up, each under its sign. -/
def TermSum.tally (mark : Option (String × Int)) (p : TermSum) : Int :=
  (p.weights Term.mark mark).sum

def Entry.tally (name : String) (exponent : Int) : List Entry → Int
  | [] => 0
  | entry :: rest =>
    (if entry.name = name ∧ entry.exponent = exponent then entry.coefficient else 0) +
      tally name exponent rest

/-- The constant, or the coefficients of the entries of one power added up. -/
def Collected.tally (c : Collected) : Option (String × Int) → Int
  | none => c.constant
  | some (x, e) => Entry.tally x e c.entries

/-- Everything that was collected has cancelled. -/
def Collected.Vanishes (c : Collected) : Prop :=
  c.constant = 0 ∧ ∀ entry ∈ c.entries, entry.coefficient = 0

variable {mark : Option (String × Int)}

namespace Term

theorem tally_neg (t : Term) : t.neg.tally mark = -t.tally mark := by
  rw [tally, tally, mark_neg, weight_neg]
  split
  · rfl
  · exact Int.neg_zero.symm

theorem tally_unite? {s : Sign} {t u v : Term} (h : t.unite? s u = some v) :
    v.tally mark = s.apply (t.tally mark) (u.tally mark) := by
  obtain ⟨ht, hu⟩ := alike_of_unite? h
  rw [Alike] at ht hu
  rw [tally, tally, tally, ht, hu, weight_of_unite? h]
  split
  · rfl
  · cases s <;> rfl

end Term

namespace TermSum

theorem sum_map_tally_terms (p : TermSum) : (p.terms.map (Term.tally mark)).sum = p.tally mark :=
  (sum_weights Term.mark mark p).symm

@[simp] theorem tally_term (t : Term) : (term t).tally mark = t.tally mark := by
  rw [← sum_map_tally_terms, terms, List.map_singleton, List.sum_singleton]

@[simp] theorem tally_join (s : Sign) (p q : TermSum) :
    (join s p q).tally mark = s.apply (p.tally mark) (q.tally mark) := by
  simp only [← sum_map_tally_terms]
  cases s with
  | plus => rw [terms, List.map_append, List.sum_append, Sign.apply]
  | minus => rw [sum_map_terms_minus Term.tally_neg, Sign.apply]

theorem tally_unite (s : Sign) (p q : TermSum) :
    (unite s p q).tally mark = s.apply (p.tally mark) (q.tally mark) := by
  unfold unite
  split
  · split
    · next hunite => rw [tally_term, tally_term, tally_term, Term.tally_unite? hunite]
    · exact tally_join s _ _
  · exact tally_join s _ _

theorem tally_united (p : TermSum) : p.united.tally mark = p.tally mark := by
  induction p with
  | term t => rfl
  | join s l r ihl ihr => rw [united, tally_unite, ihl, ihr, tally_join]

end TermSum

namespace Entry

variable {x y : String} {e f : Int}

/-- Inserting adds to the tally of one power and leaves the others as they are. -/
theorem tally_insert (k : Int) (entries : List Entry) :
    tally y f (insert x e k entries) =
      tally y f entries + (Term.monomial x k e).tally (some (y, f)) := by
  have hterm : (Term.monomial x k e).tally (some (y, f)) = if x = y ∧ e = f then k else 0 := by
    simp only [Term.tally, Term.mark, Term.weight, Option.some.injEq, Prod.mk.injEq]
  rw [hterm]
  induction entries with
  | nil => simp only [insert, tally, Int.zero_add, Int.add_zero]
  | cons entry rest ih =>
    simp only [insert]
    split
    · next hkey =>
      simp only [tally, hkey.1, hkey.2]
      split <;> omega
    · split
      · simp only [tally]
        omega
      · simp only [tally, ih]
        omega

theorem tally_eq_zero {entries : List Entry}
    (h : ∀ entry ∈ entries, ¬(entry.name = x ∧ entry.exponent = e)) : tally x e entries = 0 := by
  induction entries with
  | nil => rfl
  | cons entry rest ih =>
    obtain ⟨hentry, hrest⟩ := List.forall_mem_cons.mp h
    rw [tally, if_neg hentry, ih hrest, Int.zero_add]

theorem Before.key_ne {a b : Entry} (h : a.Before b) :
    ¬(a.name = b.name ∧ a.exponent = b.exponent) := by
  rintro ⟨hname, hexp⟩
  rw [before_iff, hname, hexp] at h
  rcases h with h | ⟨-, h⟩
  · exact lt_irrefl _ h
  · exact lt_irrefl _ h

/-- No other entry of a sorted list is of the same power. -/
theorem tally_of_mem {entries : List Entry} (hs : Sorted entries) {entry : Entry}
    (h : entry ∈ entries) : tally entry.name entry.exponent entries = entry.coefficient := by
  induction entries with
  | nil => cases h
  | cons first rest ih =>
    obtain ⟨hfirst, hrest⟩ := List.pairwise_cons.mp hs
    rcases List.mem_cons.mp h with rfl | hmem
    · rw [tally, if_pos ⟨rfl, rfl⟩, tally_eq_zero, Int.add_zero]
      rintro other hother ⟨hname, hexp⟩
      exact (hfirst other hother).key_ne ⟨hname.symm, hexp.symm⟩
    · rw [tally, if_neg (hfirst entry hmem).key_ne, ih hrest hmem, Int.zero_add]

end Entry

namespace Collected

theorem tally_add (c : Collected) (t : Term) :
    (c.add t).tally mark = c.tally mark + t.tally mark := by
  cases t with
  | number v =>
    cases mark with
    | none => rfl
    | some power => exact (Int.add_zero _).symm
  | monomial x k e =>
    cases mark with
    | none => exact (Int.add_zero _).symm
    | some power => exact Entry.tally_insert k c.entries

theorem tally_foldl_add (ts : List Term) (c : Collected) :
    (ts.foldl add c).tally mark = c.tally mark + (ts.map (Term.tally mark)).sum := by
  induction ts generalizing c with
  | nil => exact (Int.add_zero _).symm
  | cons t ts ih => rw [List.foldl_cons, ih, tally_add, List.map_cons, List.sum_cons, Int.add_assoc]

end Collected

namespace TermSum

variable {p : TermSum}

/-- Collecting a sum keeps every tally. -/
theorem tally_collected (p : TermSum) : p.collected.tally mark = p.tally mark := by
  have hempty : Collected.empty.tally mark = 0 := by cases mark <;> rfl
  rw [collected, Collected.ofTerms, Collected.tally_foldl_add, hempty, sum_map_tally_terms,
    Int.zero_add]

/-- The constant and the coefficients that are collected are the tallies of the sum. -/
theorem coefficient_collected {entry : Entry} (h : entry ∈ p.collected.entries) :
    entry.coefficient = p.tally (some (entry.name, entry.exponent)) := by
  rw [← tally_collected, Collected.tally, Entry.tally_of_mem (Entry.sorted_collected p) h]

theorem vanishes_collected (h : ∀ mark, p.tally mark = 0) : p.collected.Vanishes := by
  constructor
  · exact (tally_collected p).trans (h none)
  · intro entry hentry
    exact (coefficient_collected hentry).trans (h _)

/-- If the terms of a sum unite to zero, nothing remains of it once it is collected. -/
theorem vanishes_of_united {u : Term} (hunited : p.united = .term u) (hzero : u.weight = 0) :
    p.collected.Vanishes := by
  apply vanishes_collected
  intro mark
  rw [← tally_united, hunited, tally_term, Term.tally, hzero, ite_self]

end TermSum

end LaurentCalc
