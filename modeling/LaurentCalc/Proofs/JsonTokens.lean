import LaurentCalc.Json.Reader
import LaurentCalc.Json.Writer
import Mathlib.Tactic.Ring

/-!
# Written tokens

What is written for a string, an integer or a word is read back as that token, and reading
goes on right behind it. The characters of a string come back whether they were written as
they are, as escapes, or as two halves of a surrogate pair.
-/

namespace LaurentCalc

set_option autoImplicit false

namespace Text

theorem hexValue?_hexDigit : ∀ n < 16, hexValue? (hexDigit n) = some n := by decide

theorem foldlM_hexText (width n start : Nat) :
    (hexText width n).foldlM (fun m c => (hexValue? c).map (16 * m + ·)) start =
      some (16 ^ width * start + n % 16 ^ width) := by
  induction width generalizing n with
  | zero => simp [hexText, Nat.mod_one]
  | succ width ih =>
    have hmod : n % 16 ^ (width + 1) = n % 16 + 16 * (n / 16 % 16 ^ width) := by
      rw [Nat.pow_succ, Nat.mul_comm, Nat.mod_mul]
    rw [hexText, List.foldlM_append, ih, hmod]
    simp only [List.foldlM_cons, List.foldlM_nil, hexValue?_hexDigit _ (Nat.mod_lt n (by decide)),
      Option.map_some, Option.bind_eq_bind, Option.bind_some, Option.pure_def, Option.some.injEq]
    ring

/-- A number is read back from as many hexadecimal digits as it needs. -/
theorem hexNumber?_hexText {width n : Nat} (h : n < 16 ^ width) :
    hexNumber? (hexText width n) = some n := by
  rw [hexNumber?, foldlM_hexText, Nat.mul_zero, Nat.zero_add, Nat.mod_eq_of_lt h]

end Text

namespace Json

/-- The code units of a character: itself, or the two halves of a surrogate pair. -/
def units (c : Char) : List Nat :=
  if c.toNat < 0x10000 then [c.toNat]
  else [0xD800 + (c.toNat - 0x10000) / 0x400, 0xDC00 + (c.toNat - 0x10000) % 0x400]

section Strings

variable {rest : List Char} {c : Char} {n : Nat}

theorem readString_unitEscape (h : n < 0x10000) (rest : List Char) :
    readString (unitEscape n ++ rest) =
      (readString rest).map fun found => (n :: found.1, found.2) := by
  have hdigits : Text.hexNumber? [Text.hexDigit (n / 16 / 16 / 16 % 16),
      Text.hexDigit (n / 16 / 16 % 16), Text.hexDigit (n / 16 % 16), Text.hexDigit (n % 16)] =
        some n := @Text.hexNumber?_hexText 4 n h
  have hread : readString (unitEscape n ++ rest) =
      (Text.hexNumber? [Text.hexDigit (n / 16 / 16 / 16 % 16), Text.hexDigit (n / 16 / 16 % 16),
        Text.hexDigit (n / 16 % 16), Text.hexDigit (n % 16)]).bind fun m =>
          (readString rest).bind fun found => some (m :: found.1, found.2) := rfl
  rw [hread, hdigits]
  cases readString rest <;> rfl

theorem readString_escape {e : Char} (hc : c ≠ 'u') (he : escaped? c = some e) (rest : List Char) :
    readString ('\\' :: c :: rest) =
      (readString rest).map fun found => (e.toNat :: found.1, found.2) := by
  rw [readString, he]
  · cases readString rest <;> rfl
  · exact fun _ _ _ _ _ hu => absurd hu hc

theorem readString_plain (hquote : c ≠ '"') (hbackslash : c ≠ '\\') (hlow : 0x20 ≤ c.toNat)
    (rest : List Char) :
    readString (c :: rest) = (readString rest).map fun found => (c.toNat :: found.1, found.2) := by
  have hallowed : ¬(c.toNat < 0x20 ∨ c = '\\') := not_or.mpr ⟨Nat.not_lt.mpr hlow, hbackslash⟩
  rw [readString, if_neg hallowed]
  · cases readString rest <;> rfl
  · exact hquote
  · exact fun _ _ _ _ _ heq => absurd heq hbackslash
  · exact fun _ _ heq => absurd heq hbackslash

theorem units_of_lt (h : c.toNat < 0x10000) : units c = [c.toNat] := if_pos h

/-- Whatever is written for a character is read as its code units. -/
theorem readString_escapedChar (c : Char) (rest : List Char) :
    readString (escapedChar c ++ rest) =
      (readString rest).map fun found => (units c ++ found.1, found.2) := by
  unfold escapedChar
  split
  · next hquoted =>
    rcases hquoted with rfl | rfl
    · exact readString_escape (by decide) rfl rest
    · exact readString_escape (by decide) rfl rest
  split
  · next hc => subst hc; exact readString_escape (by decide) rfl rest
  split
  · next hc => subst hc; exact readString_escape (by decide) rfl rest
  split
  · next hc => subst hc; exact readString_escape (by decide) rfl rest
  split
  · next hc => subst hc; exact readString_escape (by decide) rfl rest
  split
  · next hc => subst hc; exact readString_escape (by decide) rfl rest
  next hquoted _ _ _ _ _ =>
    rw [not_or] at hquoted
    dsimp only
    split
    · next hprintable =>
      rw [units_of_lt (by omega)]
      exact readString_plain hquoted.1 hquoted.2 hprintable.1 rest
    split
    · next hlow =>
      rw [units_of_lt hlow]
      exact readString_unitEscape hlow rest
    · next hhigh =>
      -- the two halves of a surrogate pair, each written with four digits
      have hunits : units c =
          [0xD800 + (c.toNat - 0x10000) / 0x400, 0xDC00 + (c.toNat - 0x10000) % 0x400] :=
        if_neg hhigh
      have hbound : c.toNat < 0x110000 := by
        rcases c.valid with h | ⟨-, h⟩
        · exact Nat.lt_trans h (by decide)
        · exact h
      rw [List.append_assoc, readString_unitEscape (by omega), readString_unitEscape (by omega),
        hunits, Option.map_map]
      rfl

theorem readString_escaped (cs rest : List Char) :
    readString (cs.flatMap escapedChar ++ '"' :: rest) = some (cs.flatMap units, rest) := by
  induction cs with
  | nil => rfl
  | cons c cs ih =>
    rw [List.flatMap_cons, List.append_assoc, readString_escapedChar, ih, List.flatMap_cons]
    rfl

theorem joinSurrogates_cons (hhigh : isHighSurrogate n = false) (hlow : isLowSurrogate n = false)
    (ns : List Nat) : joinSurrogates (n :: ns) = Char.ofNat n :: joinSurrogates ns := by
  cases ns <;> simp [joinSurrogates, hhigh, hlow]

/-- The code units of a character are joined to that character. -/
theorem joinSurrogates_units (c : Char) (ns : List Nat) :
    joinSurrogates (units c ++ ns) = c :: joinSurrogates ns := by
  have hvalid : c.toNat < 0xD800 ∨ 0xDFFF < c.toNat ∧ c.toNat < 0x110000 := c.valid
  have hc : Char.ofNat c.toNat = c := Char.ofNat_toNat c
  unfold units
  split
  · rw [List.singleton_append, joinSurrogates_cons, hc]
    · simp only [isHighSurrogate, Bool.and_eq_false_iff, decide_eq_false_iff_not]
      omega
    · simp only [isLowSurrogate, Bool.and_eq_false_iff, decide_eq_false_iff_not]
      omega
  · have hpair : (isHighSurrogate (0xD800 + (c.toNat - 0x10000) / 0x400) &&
        isLowSurrogate (0xDC00 + (c.toNat - 0x10000) % 0x400)) = true := by
      simp only [isHighSurrogate, isLowSurrogate, Bool.and_eq_true, decide_eq_true_eq]
      omega
    have hjoined : 0x10000 + (0xD800 + (c.toNat - 0x10000) / 0x400 - 0xD800) * 0x400 +
        (0xDC00 + (c.toNat - 0x10000) % 0x400 - 0xDC00) = c.toNat := by omega
    rw [List.cons_append, List.cons_append, List.nil_append, joinSurrogates, if_pos hpair, hjoined,
      hc]

theorem joinSurrogates_flatMap_units (cs : List Char) : joinSurrogates (cs.flatMap units) = cs := by
  induction cs with
  | nil => rfl
  | cons c cs ih => rw [List.flatMap_cons, joinSurrogates_units, ih]

/-- A string is read back. -/
theorem readToken_quotedString (s : String) (rest : List Char) :
    readToken (quotedString s ++ rest) = some (.string s, rest) := by
  have hread : readToken (quotedString s ++ rest) =
      (readString (s.toList.flatMap escapedChar ++ ['"'] ++ rest)).bind fun found =>
        some (.string (String.ofList (joinSurrogates found.1)), found.2) := rfl
  rw [hread, List.append_assoc, List.singleton_append, readString_escaped, Option.bind_some,
    joinSurrogates_flatMap_units, String.ofList_toList]

end Strings

/-- A numeral that stands here ends here. -/
def EndsNumeral (rest : List Char) : Prop :=
  ∀ c ∈ rest.head?, isDigit c = false ∧ c ≠ '.' ∧ c ≠ 'e' ∧ c ≠ 'E'

theorem EndsNumeral.takeWhile {rest : List Char} (h : EndsNumeral rest) :
    rest.takeWhile isDigit = [] := by
  cases rest with
  | nil => rfl
  | cons c rest => exact List.takeWhile_cons_of_neg (by rw [(h c rfl).1]; exact Bool.false_ne_true)

theorem EndsNumeral.dropWhile {rest : List Char} (h : EndsNumeral rest) :
    rest.dropWhile isDigit = rest := by
  cases rest with
  | nil => rfl
  | cons c rest => exact List.dropWhile_cons_of_neg (by rw [(h c rfl).1]; exact Bool.false_ne_true)

section Numerals

variable {rest : List Char} {c : Char} {n : Nat}

theorem isDigit_of_mem_toDigits (h : c ∈ Nat.toDigits 10 n) : isDigit c = true := by
  have hdigit : c.isDigit = true := Nat.isDigit_of_mem_toDigits (by decide) (by decide) h
  simpa [Char.isDigit, isDigit, Char.le_def] using hdigit

/-- No zero stands in front of the digits of a positive number. -/
theorem exists_toDigits_eq_cons (n : Nat) :
    ∃ c ds, Nat.toDigits 10 n = c :: ds ∧ (c = '0' → n = 0) := by
  induction n using Nat.strong_induction_on with
  | _ n ih =>
    by_cases hlt : n < 10
    · have hzero : ∀ m < 10, m.digitChar = '0' → m = 0 := by decide
      exact ⟨n.digitChar, [], Nat.toDigits_of_lt_base hlt, hzero n hlt⟩
    · obtain ⟨c, ds, hdigits, hc⟩ := ih (n / 10) (by omega)
      refine ⟨c, ds ++ [(n % 10).digitChar], ?_, fun h => ?_⟩
      · rw [Nat.toDigits_of_base_le (by decide) (by omega), hdigits, List.cons_append]
      · have hsmall := hc h
        omega

theorem readWhole_toDigits (n : Nat) (hends : EndsNumeral rest) :
    readWhole (Nat.toDigits 10 n ++ rest) = some (Nat.toDigits 10 n, rest) := by
  obtain ⟨c, ds, hdigits, hzero⟩ := exists_toDigits_eq_cons n
  have hall : ∀ d ∈ c :: ds, isDigit d = true := fun d hd =>
    isDigit_of_mem_toDigits (hdigits ▸ hd)
  rw [hdigits, List.cons_append, readWhole]
  by_cases hc : c = '0'
  · obtain rfl : ds = [] := by
      have hn := hzero hc
      subst hn
      exact (List.cons.inj hdigits).2.symm
    rw [if_pos hc]
    rfl
  · have hds : ∀ d ∈ ds, isDigit d = true := fun d hd => hall d (List.mem_cons_of_mem c hd)
    rw [if_neg hc, if_pos (hall c List.mem_cons_self), List.takeWhile_append_of_pos hds,
      List.dropWhile_append_of_pos hds, hends.takeWhile, hends.dropWhile, List.append_nil]

theorem readFraction_of_ends (hends : EndsNumeral rest) : readFraction rest = (none, rest) := by
  cases rest with
  | nil => rfl
  | cons c rest =>
    obtain ⟨-, hpoint, -⟩ := hends c rfl
    unfold readFraction
    split
    · next heq => exact absurd (List.cons.inj heq).1 hpoint
    · rfl

theorem readExponent_of_ends (hends : EndsNumeral rest) : readExponent rest = (none, rest) := by
  cases rest with
  | nil => rfl
  | cons c rest =>
    obtain ⟨-, -, hlower, hupper⟩ := hends c rfl
    exact if_neg (not_or.mpr ⟨hlower, hupper⟩)

theorem readUnsigned_toDigits (negative : Bool) (n : Nat) (hends : EndsNumeral rest) :
    readUnsigned negative (Nat.toDigits 10 n ++ rest) =
      some (.integer (if negative then -n else n), rest) := by
  have hvalue : digitsValue (Nat.toDigits 10 n) = n := Nat.ofDigitChars_ten_toDigits
  rw [readUnsigned, readWhole_toDigits n hends, Option.bind_eq_bind, Option.bind_some]
  simp only [readFraction_of_ends hends, readExponent_of_ends hends, hvalue]
  rfl

theorem ne_of_isDigit {d : Char} (hc : isDigit c = true) (hd : isDigit d = false) : c ≠ d := by
  rintro rfl
  rw [hc] at hd
  cases hd

theorem readWord_eq_none {cs : List Char} (h : ∀ word ∈ words, ¬word.1 <+: cs) :
    readWord cs = none := by
  refine List.findSome?_eq_none_iff.mpr fun word hword => ?_
  have hnot : ¬word.1.isPrefixOf cs = true := mt List.isPrefixOf_iff_prefix.mp (h word hword)
  have hnone : afterWord? word.1 cs = none := if_neg hnot
  exact congrArg (Option.map (word.2, ·)) hnone

theorem readWord_of_isDigit (hc : isDigit c = true) (rest : List Char) :
    readWord (c :: rest) = none := by
  refine readWord_eq_none fun word hword hprefix => ?_
  simp only [words, List.mem_cons, List.not_mem_nil, or_false] at hword
  rcases hword with rfl | rfl | rfl | rfl | rfl | rfl
  all_goals
    obtain ⟨hhead, -⟩ := List.cons_prefix_cons.mp hprefix
    exact absurd hc (hhead ▸ by decide)

/-- The only word that begins with a sign has a letter behind it. -/
theorem readWord_minus (hc : isDigit c = true) (rest : List Char) :
    readWord ('-' :: c :: rest) = none := by
  refine readWord_eq_none fun word hword hprefix => ?_
  simp only [words, List.mem_cons, List.not_mem_nil, or_false] at hword
  rcases hword with rfl | rfl | rfl | rfl | rfl | rfl
  case inr.inr.inr.inr.inr =>
    obtain ⟨hletter, -⟩ := List.cons_prefix_cons.mp (List.cons_prefix_cons.mp hprefix).2
    exact absurd hc (hletter ▸ by decide)
  all_goals exact absurd (List.cons_prefix_cons.mp hprefix).1 (by decide)

theorem readToken_scalar {cs after : List Char} {v : Value}
    (hc : c ∉ ['{', '}', '[', ']', ':', ',', '"']) (hword : readWord (c :: cs) = none)
    (hnumber : readNumber (c :: cs) = some (v, after)) :
    readToken (c :: cs) = some (.scalar v, after) := by
  simp only [List.mem_cons, List.not_mem_nil, or_false, not_or] at hc
  obtain ⟨h₁, h₂, h₃, h₄, h₅, h₆, h₇⟩ := hc
  rw [readToken, hword, hnumber]
  · rfl
  all_goals simp_all

theorem readToken_toDigits (n : Nat) (hends : EndsNumeral rest) :
    readToken (Nat.toDigits 10 n ++ rest) = some (.scalar (.integer n), rest) := by
  obtain ⟨c, ds, hdigits, -⟩ := exists_toDigits_eq_cons n
  have hc : isDigit c = true := isDigit_of_mem_toDigits (hdigits ▸ List.mem_cons_self)
  have hread := readUnsigned_toDigits false n hends
  rw [hdigits] at hread ⊢
  have hsymbols : ∀ d ∈ ['{', '}', '[', ']', ':', ',', '"'], isDigit d = false := by
    simp [isDigit]
  refine readToken_scalar (fun hmem => ne_of_isDigit hc (hsymbols c hmem) rfl)
    (readWord_of_isDigit hc (ds ++ rest)) ?_
  have hsign : c ≠ '-' := ne_of_isDigit hc (by decide)
  rw [readNumber]
  · exact hread
  · exact fun _ heq => hsign (List.cons.inj heq).1

theorem readToken_minus_toDigits (n : Nat) (hends : EndsNumeral rest) :
    readToken ('-' :: (Nat.toDigits 10 n ++ rest)) = some (.scalar (.integer (-n)), rest) := by
  obtain ⟨c, ds, hdigits, -⟩ := exists_toDigits_eq_cons n
  have hc : isDigit c = true := isDigit_of_mem_toDigits (hdigits ▸ List.mem_cons_self)
  have hread := readUnsigned_toDigits true n hends
  rw [hdigits] at hread ⊢
  exact readToken_scalar (by decide) (readWord_minus hc (ds ++ rest)) hread

/-- An integer is read back if its numeral ends where it should. -/
theorem readToken_repr (n : Int) (hends : EndsNumeral rest) :
    readToken (n.repr.toList ++ rest) = some (.scalar (.integer n), rest) := by
  cases n with
  | ofNat m =>
    have hrepr : (Int.ofNat m).repr.toList = Nat.toDigits 10 m := Nat.toList_repr
    rw [hrepr]
    exact readToken_toDigits m hends
  | negSucc m =>
    have hrepr : (Int.negSucc m).repr.toList = '-' :: Nat.toDigits 10 (m + 1) := by
      rw [Int.repr, String.toList_append, Nat.toList_repr]
      rfl
    rw [hrepr]
    exact readToken_minus_toDigits (m + 1) hends

end Numerals

/-- No token begins with a blank. -/
theorem isBlank_of_readToken {c : Char} {rest after : List Char} {token : Token}
    (h : readToken (c :: rest) = some (token, after)) : isBlank c = false := by
  by_contra hblank
  rw [Bool.not_eq_false, isBlank] at hblank
  simp only [Bool.or_eq_true, decide_eq_true_eq] at hblank
  rcases hblank with ((rfl | rfl) | rfl) | rfl
  all_goals
    change none = some _ at h
    cases h

/-- Reading goes on behind a token that can stand where it does. -/
theorem Reading.finish_of_readToken {limit : Nat} {r next : Reading} {token : Token}
    {cs after : List Char} (hread : readToken cs = some (token, after))
    (hstep : r.step limit token = .ok next) : r.finish limit cs = next.finish limit after := by
  cases cs with
  | nil => cases hread
  | cons c cs =>
    rw [finish, if_neg (by rw [isBlank_of_readToken hread]; exact Bool.false_ne_true)]
    split
    · next hnone =>
      rw [hread] at hnone
      cases hnone
    · next hsome =>
      rw [hread] at hsome
      cases hsome
      rw [hstep]

end Json

end LaurentCalc
