import LaurentCalc.Proofs.Limit
import Mathlib.Data.List.Basic

/-!
# Scanning

The tokens of a text that is put together from blanks, symbols, decimal numbers and
names. Blanks, digits and letters are different characters, so a name or a number
goes on exactly as far as its letters or digits do.
-/

namespace LaurentCalc

set_option autoImplicit false

namespace Text

theorem exists_range_of_covers {ranges : List (Nat × Nat)} {n : Nat}
    (h : CharSet.covers ranges n = true) : ∃ range ∈ ranges, range.1 ≤ n ∧ n ≤ range.2 := by
  induction ranges with
  | nil => cases h
  | cons range ranges ih =>
    obtain ⟨low, high⟩ := range
    simp only [CharSet.covers, Bool.and_eq_true, Bool.or_eq_true, decide_eq_true_eq] at h
    rcases h.2 with hhigh | hrest
    · exact ⟨(low, high), List.mem_cons_self, h.1, hhigh⟩
    · obtain ⟨range, hmem, hrange⟩ := ih hrest
      exact ⟨range, List.mem_cons_of_mem _ hmem, hrange⟩

/-- The runs of ten digits that begin with the given zeros. -/
def digitRanges (starts : List Nat) : List (Nat × Nat) := starts.map fun start => (start, start + 9)

theorem exists_range_of_digitValueFrom {starts : List Nat} {n : Nat}
    (h : (digitValueFrom starts n).isSome = true) :
    ∃ range ∈ digitRanges starts, range.1 ≤ n ∧ n ≤ range.2 := by
  induction starts with
  | nil => cases h
  | cons start starts ih =>
    simp only [digitValueFrom] at h
    split at h
    · cases h
    · split at h
      · exact ⟨(start, start + 9), List.mem_cons_self, by omega, by omega⟩
      · obtain ⟨range, hmem, hrange⟩ := ih h
        exact ⟨range, List.mem_cons_of_mem _ hmem, hrange⟩

/-- No range of the one list meets a range of the other. -/
def apart (xs ys : List (Nat × Nat)) : Bool :=
  xs.all fun x => ys.all fun y => Nat.blt x.2 y.1 || Nat.blt y.2 x.1

theorem letters_apart_from_digits : apart letters.ranges (digitRanges zeros) = true := by
  decide +kernel

theorem letters_apart_from_blanks : apart letters.ranges blanks.ranges = true := by
  decide +kernel

theorem digits_apart_from_blanks : apart (digitRanges zeros) blanks.ranges = true := by
  decide +kernel

theorem not_both_of_apart {xs ys : List (Nat × Nat)} {n : Nat} (h : apart xs ys = true)
    (hx : ∃ x ∈ xs, x.1 ≤ n ∧ n ≤ x.2) (hy : ∃ y ∈ ys, y.1 ≤ n ∧ n ≤ y.2) : False := by
  obtain ⟨x, hmem, hlow, hhigh⟩ := hx
  obtain ⟨y, hmem', hlow', hhigh'⟩ := hy
  have hgap := List.all_eq_true.mp (List.all_eq_true.mp h x hmem) y hmem'
  rw [Bool.or_eq_true, Nat.blt_eq, Nat.blt_eq] at hgap
  omega

variable {c : Char}

theorem isDigit_eq_false_of_isLetter (h : isLetter c = true) : isDigit c = false := by
  rw [Bool.eq_false_iff]
  intro hdigit
  exact not_both_of_apart letters_apart_from_digits (exists_range_of_covers h)
    (exists_range_of_digitValueFrom hdigit)

theorem isBlank_eq_false_of_isLetter (h : isLetter c = true) : isBlank c = false := by
  rw [Bool.eq_false_iff]
  intro hblank
  exact not_both_of_apart letters_apart_from_blanks (exists_range_of_covers h)
    (exists_range_of_covers hblank)

theorem isBlank_eq_false_of_isDigit (h : isDigit c = true) : isBlank c = false := by
  rw [Bool.eq_false_iff]
  intro hblank
  exact not_both_of_apart digits_apart_from_blanks (exists_range_of_digitValueFrom h)
    (exists_range_of_covers hblank)

theorem digitValue?_of_isDigit (h : c.isDigit = true) : digitValue? c = some (c.toNat - 48) := by
  obtain ⟨hlow, hhigh⟩ : 48 ≤ c.toNat ∧ c.toNat ≤ 57 := by
    simp only [Char.isDigit, Bool.and_eq_true, decide_eq_true_eq, ge_iff_le,
      UInt32.le_iff_toNat_le] at h
    exact h
  simp only [digitValue?, zeros, digitValueFrom]
  rw [if_neg (by omega), if_pos (by omega)]

theorem isDigit_of_isDigit (h : c.isDigit = true) : isDigit c = true := by
  rw [isDigit, digitValue?_of_isDigit h]
  rfl

theorem numberOfDigits_eq_ofDigitChars {cs : List Char} (h : ∀ c ∈ cs, c.isDigit = true) :
    numberOfDigits cs = Nat.ofDigitChars 10 cs 0 := by
  rw [numberOfDigits, Nat.ofDigitChars_eq_foldl]
  apply List.foldl_ext
  intro n c hc
  rw [digitValue?_of_isDigit (h c hc)]
  rfl

theorem isDigit_of_mem_repr {n : Nat} (h : c ∈ n.repr.toList) : c.isDigit = true := by
  rw [Nat.toList_repr] at h
  exact Nat.isDigit_of_mem_toDigits (by decide) (by decide) h

theorem numberOfDigits_repr (n : Nat) : numberOfDigits n.repr.toList = n := by
  rw [numberOfDigits_eq_ofDigitChars fun _ => isDigit_of_mem_repr, Nat.toList_repr,
    Nat.ofDigitChars_ten_toDigits]

def symbols : List Char := ['+', '-', '*', '/', '^', '(', ')']

theorem symbols_apart :
    ∀ c ∈ symbols, isBlank c = false ∧ isDigit c = false ∧ isLetter c = false := by
  have hall : (symbols.all fun c => !(isBlank c || isDigit c || isLetter c)) = true := by
    decide +kernel
  intro c hc
  simpa [and_assoc] using List.all_eq_true.mp hall c hc

end Text

theorem TokenKind.mem_of_ofSymbol? {c : Char} {kind : TokenKind} (h : ofSymbol? c = some kind) :
    c ∈ Text.symbols ∧ kind ≠ .endOfText := by
  unfold ofSymbol? at h
  repeat' split at h
  all_goals cases h
  all_goals exact ⟨by simp_all [Text.symbols], fun hkind => by cases hkind⟩

namespace Cursor

variable {c : Cursor}

theorem skip_of_head {p : Char → Bool} (h : ∀ ch ∈ c.rest.head?, p ch = false) : c.skip p = c := by
  obtain ⟨rest, position⟩ := c
  cases rest with
  | nil => rfl
  | cons ch rest =>
    have hch : p ch = false := h ch rfl
    simp [skip, run, hch]

/-- Behind a run stands a character that ends it, or nothing. -/
theorem head_rest_skip (p : Char → Bool) (c : Cursor) :
    ∀ ch ∈ (c.skip p).rest.head?, p ch = false := by
  intro ch hch
  have hstop := List.head?_dropWhile_not p c.rest
  have hhead : (c.rest.dropWhile p).head? = some ch := hch
  rw [hhead] at hstop
  exact hstop

theorem run_append {p : Char → Bool} {front rest : List Char} {position : Nat}
    (hfront : ∀ ch ∈ front, p ch = true) (hrest : ∀ ch ∈ rest.head?, p ch = false) :
    (Cursor.mk (front ++ rest) position).run p = front := by
  rw [run, List.takeWhile_append_of_pos hfront]
  cases rest with
  | nil => simp
  | cons ch rest =>
    have hch : p ch = false := hrest ch rfl
    simp [hch]

theorem skip_append {p : Char → Bool} {front rest : List Char} {position : Nat}
    (hfront : ∀ ch ∈ front, p ch = true) (hrest : ∀ ch ∈ rest.head?, p ch = false) :
    (Cursor.mk (front ++ rest) position).skip p = ⟨rest, position + front.length⟩ := by
  rw [skip, run_append hfront hrest, List.dropWhile_append_of_pos hfront]
  cases rest with
  | nil => rfl
  | cons ch rest =>
    have hch : p ch = false := hrest ch rfl
    simp [hch]

end Cursor

/-- Wherever the text stands, its tokens are the given ones. -/
def Scans (cs : List Char) (ts : List Token) : Prop :=
  ∀ position, (Cursor.mk cs position).lexed.unknown? = none ∧ (Cursor.mk cs position).tokens = ts

namespace Scans

variable {cs : List Char} {ts : List Token}

theorem nil : Scans [] [.endOfText] := by
  intro position
  have hnext : (Cursor.mk [] position).next = (.ok .endOfText, ⟨[], position⟩) := rfl
  rw [Cursor.tokens, Cursor.lexed_eq, hnext]
  exact ⟨rfl, rfl⟩

theorem of_next {front : List Char} {token : Token} (hkind : token.kind ≠ .endOfText)
    (hnext : ∀ position, ∃ position', (Cursor.mk (front ++ cs) position).next =
      (.ok token, ⟨cs, position'⟩)) (h : Scans cs ts) : Scans (front ++ cs) (token :: ts) := by
  intro position
  obtain ⟨position', hnext⟩ := hnext position
  obtain ⟨hunknown, htokens⟩ := h position'
  rw [Cursor.tokens, Cursor.lexed_eq, hnext]
  simp only [hkind, if_false]
  exact ⟨hunknown, congrArg (token :: ·) htokens⟩

theorem blank {c : Char} (hc : Text.isBlank c = true) (h : Scans cs ts) : Scans (c :: cs) ts := by
  intro position
  have hskip : (Cursor.mk (c :: cs) position).skipBlanks =
      (Cursor.mk cs (position + 1)).skipBlanks := by
    simp only [Cursor.skipBlanks, Cursor.skip, Cursor.run, List.dropWhile_cons, List.takeWhile_cons,
      hc, if_true, List.length_cons]
    rw [Nat.add_assoc, Nat.add_comm 1]
  have hlexed : (Cursor.mk (c :: cs) position).lexed = (Cursor.mk cs (position + 1)).lexed := by
    rw [Cursor.lexed_eq, Cursor.lexed_eq (Cursor.mk cs (position + 1)), Cursor.next, Cursor.next,
      hskip]
  rw [Cursor.tokens, hlexed]
  exact h (position + 1)

theorem skipBlanks_append {front : List Char} {position : Nat} {c : Char}
    (hhead : front.head? = some c) (hc : Text.isBlank c = false) :
    (Cursor.mk (front ++ cs) position).skipBlanks = ⟨front ++ cs, position⟩ := by
  apply Cursor.skip_of_head
  intro ch hch
  rw [List.head?_append, hhead, Option.some_or, Option.mem_some_iff] at hch
  exact hch ▸ hc

theorem symbol {c : Char} {kind : TokenKind} (hc : TokenKind.ofSymbol? c = some kind)
    (h : Scans cs ts) : Scans (c :: cs) (.symbol kind c :: ts) := by
  obtain ⟨hmem, hkind⟩ := TokenKind.mem_of_ofSymbol? hc
  obtain ⟨hblank, hdigit, hletter⟩ := Text.symbols_apart c hmem
  have hnext : ∀ position, ∃ position', (Cursor.mk ([c] ++ cs) position).next =
      (.ok (.symbol kind c), ⟨cs, position'⟩) := by
    intro position
    refine ⟨position + 1, ?_⟩
    rw [Cursor.next, skipBlanks_append rfl hblank]
    simp [Cursor.tokenHere, hdigit, hletter, hc, Cursor.advance]
  exact of_next hkind hnext h

theorem blanks {front : List Char} (hfront : ∀ c ∈ front, Text.isBlank c = true)
    (h : Scans cs ts) : Scans (front ++ cs) ts := by
  induction front with
  | nil => exact h
  | cons c front ih =>
    obtain ⟨hc, hrest⟩ := List.forall_mem_cons.mp hfront
    exact (ih hrest).blank hc

theorem digits {front : List Char} (hne : front ≠ [])
    (hfront : ∀ c ∈ front, Text.isDigit c = true)
    (hstop : ∀ c ∈ cs.head?, Text.isDigit c = false) (h : Scans cs ts) :
    Scans (front ++ cs) (.integer (Text.numberOfDigits front) :: ts) := by
  obtain ⟨c, rest, hcons⟩ := List.exists_cons_of_ne_nil hne
  have hc := hfront c (hcons ▸ List.mem_cons_self)
  refine of_next (fun hkind => by cases hkind)
    (fun position => ⟨position + front.length, ?_⟩) h
  rw [Cursor.next, skipBlanks_append (by rw [hcons]; rfl) (Text.isBlank_eq_false_of_isDigit hc)]
  have hhere : (Cursor.mk (front ++ cs) position).tokenHere =
      (.ok (.integer (Text.numberOfDigits
        ((Cursor.mk (front ++ cs) position).run Text.isDigit))),
      (Cursor.mk (front ++ cs) position).skip Text.isDigit) := by
    rw [hcons]
    simp [Cursor.tokenHere, hc]
  rw [hhere, Cursor.run_append hfront hstop, Cursor.skip_append hfront hstop]

theorem integer (n : Nat) (hstop : ∀ c ∈ cs.head?, Text.isDigit c = false) (h : Scans cs ts) :
    Scans (n.repr.toList ++ cs) (.integer n :: ts) := by
  have hne : n.repr.toList ≠ [] := Nat.toList_repr ▸ Nat.toDigits_ne_nil
  have hdigits : ∀ c ∈ n.repr.toList, Text.isDigit c = true := fun _ hc =>
    Text.isDigit_of_isDigit (Text.isDigit_of_mem_repr hc)
  have hscans := digits hne hdigits hstop h
  rwa [Text.numberOfDigits_repr] at hscans

theorem name {x : String} (hne : x ≠ "") (hx : ∀ c ∈ x.toList, Text.isLetter c = true)
    (hstop : ∀ c ∈ cs.head?, Text.isLetter c = false) (h : Scans cs ts) :
    Scans (x.toList ++ cs) (.identifier x :: ts) := by
  obtain ⟨c, rest, hcons⟩ := List.exists_cons_of_ne_nil
    (show x.toList ≠ [] from fun hnil => hne (String.toList_eq_nil_iff.mp hnil))
  have hc := hx c (hcons ▸ List.mem_cons_self)
  refine of_next (fun hkind => by cases hkind)
    (fun position => ⟨position + x.toList.length, ?_⟩) h
  rw [Cursor.next, skipBlanks_append (by rw [hcons]; rfl) (Text.isBlank_eq_false_of_isLetter hc)]
  have hhere : (Cursor.mk (x.toList ++ cs) position).tokenHere =
      (.ok (.identifier (Cursor.mk (x.toList ++ cs) position).identifier),
      (Cursor.mk (x.toList ++ cs) position).skip Text.isLetter) := by
    rw [hcons]
    simp [Cursor.tokenHere, hc, Text.isDigit_eq_false_of_isLetter hc]
  rw [hhere, Cursor.identifier, Cursor.run_append hx hstop, Cursor.skip_append hx hstop,
    String.ofList_toList]

end Scans

end LaurentCalc
