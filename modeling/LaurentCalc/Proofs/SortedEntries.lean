import LaurentCalc.Canonical
import Mathlib.Data.List.Sort
import Mathlib.Data.String.Basic

/-!
# Sorted entries

Collecting terms keeps the entries strictly sorted, names ascending and exponents
of one name descending. So no power has two entries, and sorted entries are
determined by which of them there are.
-/

namespace LaurentCalc.Entry

set_option autoImplicit false

def Before (a b : Entry) : Prop := Precedes a.name a.exponent b

theorem before_iff {a b : Entry} :
    a.Before b ↔ a.name < b.name ∨ a.name = b.name ∧ b.exponent < a.exponent := by
  change a.name < b.name ∨ a.name = b.name ∧ -a.exponent < -b.exponent ↔ _
  rw [Int.neg_lt_neg_iff]

theorem before_irrefl (a : Entry) : ¬a.Before a := by
  rw [before_iff]
  rintro (h | ⟨_, h⟩)
  · exact lt_irrefl _ h
  · exact lt_irrefl _ h

theorem Before.trans {a b c : Entry} (hab : a.Before b) (hbc : b.Before c) : a.Before c := by
  rw [before_iff] at hab hbc ⊢
  rcases hab with hab | ⟨hab, hexp⟩
  · rcases hbc with hbc | ⟨hbc, _⟩
    · exact Or.inl (hab.trans hbc)
    · exact Or.inl (hbc ▸ hab)
  · rcases hbc with hbc | ⟨hbc, hexp'⟩
    · exact Or.inl (hab ▸ hbc)
    · exact Or.inr ⟨hab.trans hbc, hexp'.trans hexp⟩

instance : Std.Irrefl Before := ⟨before_irrefl⟩

instance : Std.Antisymm Before := ⟨fun a _ hab hba => absurd (hab.trans hba) (before_irrefl a)⟩

theorem before_or_before {a b : Entry} (h : ¬(a.name = b.name ∧ a.exponent = b.exponent)) :
    a.Before b ∨ b.Before a := by
  rw [before_iff, before_iff]
  rcases lt_trichotomy a.name b.name with hlt | heq | hgt
  · exact Or.inl (Or.inl hlt)
  · have hexp : a.exponent ≠ b.exponent := fun he => h ⟨heq, he⟩
    rcases lt_or_gt_of_ne hexp with hlt | hgt
    · exact Or.inr (Or.inr ⟨heq.symm, hlt⟩)
    · exact Or.inl (Or.inr ⟨heq, hgt⟩)
  · exact Or.inr (Or.inl hgt)

def Sorted (entries : List Entry) : Prop := entries.Pairwise Before

theorem mem_insert {x : String} {e k : Int} {entries : List Entry} {a : Entry}
    (h : a ∈ insert x e k entries) : a.name = x ∧ a.exponent = e ∨ a ∈ entries := by
  induction entries with
  | nil =>
    obtain rfl := List.mem_singleton.mp h
    exact Or.inl ⟨rfl, rfl⟩
  | cons entry rest ih =>
    simp only [insert] at h
    split at h
    · rcases List.mem_cons.mp h with rfl | h
      · exact Or.inl ⟨rfl, rfl⟩
      · exact Or.inr (List.mem_cons_of_mem entry h)
    · split at h
      · rcases List.mem_cons.mp h with rfl | h
        · exact Or.inl ⟨rfl, rfl⟩
        · exact Or.inr h
      · rcases List.mem_cons.mp h with rfl | h
        · exact Or.inr List.mem_cons_self
        · exact (ih h).imp_right (List.mem_cons_of_mem entry)

theorem sorted_insert {entries : List Entry} (hs : Sorted entries) (x : String) (e k : Int) :
    Sorted (insert x e k entries) := by
  induction entries with
  | nil => exact List.pairwise_singleton Before _
  | cons entry rest ih =>
    obtain ⟨hfirst, hrest⟩ := List.pairwise_cons.mp hs
    simp only [insert]
    split
    · next hkey =>
      refine List.pairwise_cons.mpr ⟨fun a ha => ?_, hrest⟩
      have hbefore := hfirst a ha
      rw [before_iff] at hbefore ⊢
      rwa [hkey.1, hkey.2]
    · next hkey =>
      split
      · next hprec =>
        have hnew : Before ⟨x, e, k⟩ entry := hprec
        refine List.pairwise_cons.mpr ⟨fun a ha => ?_, hs⟩
        rcases List.mem_cons.mp ha with rfl | ha
        · exact hnew
        · exact hnew.trans (hfirst a ha)
      · next hprec =>
        refine List.pairwise_cons.mpr ⟨fun a ha => ?_, ih hrest⟩
        rcases mem_insert ha with ⟨hname, hexp⟩ | ha
        · refine (before_or_before ?_).resolve_right fun hafter => hprec ?_
          · rintro ⟨hn, he⟩
            exact hkey ⟨hname ▸ hn.symm, hexp ▸ he.symm⟩
          · rw [← hname, ← hexp]
            exact hafter
        · exact hfirst a ha

theorem Sorted.eq_of_key {entries : List Entry} (hs : Sorted entries) {a b : Entry}
    (ha : a ∈ entries) (hb : b ∈ entries) (hname : a.name = b.name)
    (hexp : a.exponent = b.exponent) : a = b := by
  by_contra hne
  have hbefore : a.Before b ∨ b.Before a := by
    induction entries with
    | nil => cases ha
    | cons entry rest ih =>
      obtain ⟨hfirst, hrest⟩ := List.pairwise_cons.mp hs
      rcases List.mem_cons.mp ha with rfl | ha'
      · rcases List.mem_cons.mp hb with rfl | hb'
        · exact absurd rfl hne
        · exact Or.inl (hfirst b hb')
      · rcases List.mem_cons.mp hb with rfl | hb'
        · exact Or.inr (hfirst a ha')
        · exact ih hrest ha' hb'
  simp only [before_iff, hname, hexp, lt_irrefl, and_false, or_self] at hbefore

theorem sorted_foldl_add (ts : List Term) {c : Collected} (hs : Sorted c.entries) :
    Sorted (ts.foldl Collected.add c).entries := by
  induction ts generalizing c with
  | nil => exact hs
  | cons t ts ih =>
    apply ih
    cases t with
    | number v => exact hs
    | monomial x k e => exact sorted_insert hs x e k

theorem sorted_collected (p : TermSum) : Sorted p.collected.entries :=
  sorted_foldl_add p.terms List.Pairwise.nil

end LaurentCalc.Entry
