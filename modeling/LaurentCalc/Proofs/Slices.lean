import LaurentCalc.Proofs.EmbeddedTexts
import LaurentCalc.Proofs.UnknownCharacters
import Mathlib.Data.List.Induction
import Mathlib.Data.Nat.Digits.Defs

/-!
# Slices of a text

Every token is read from a slice of the text: a number from a run of digits and a name from a
run of letters, both as long as possible, any other token from one symbol. The slices lie one
behind the other, and what lies between them is blank, so nothing is lost and nothing is read
twice up to the end of the text or up to its first unknown character.
-/

namespace LaurentCalc

set_option autoImplicit false

/-- A run of characters that satisfy a test, and that goes on to neither side. -/
structure MaximalRun (p : Char → Bool) (front run back : List Char) : Prop where
  ne_nil : run ≠ []
  inside : ∀ c ∈ run, p c = true
  before : ∀ c ∈ front.getLast?, p c = false
  behind : ∀ c ∈ back.head?, p c = false

/-- The slice of a text from which a token is read. The value of a number is that of its decimal
digits, whichever script each of them belongs to. -/
inductive Lexeme.Slices (cs : List Char) : Lexeme → Prop where
  | integer {front run back : List Char} {digits : List Nat} (htext : cs = front ++ run ++ back)
      (hrun : MaximalRun Text.isDigit front run back)
      (hdigits : run.map Text.digitValue? = digits.map some) (hten : ∀ d ∈ digits, d < 10) :
      Slices cs
        ⟨.integer (Nat.ofDigits 10 digits.reverse), front.length, front.length + run.length⟩
  | identifier {front run back : List Char} (htext : cs = front ++ run ++ back)
      (hrun : MaximalRun Text.isLetter front run back) :
      Slices cs ⟨.identifier (String.ofList run), front.length, front.length + run.length⟩
  | symbol {front back : List Char} {c : Char} {kind : TokenKind}
    (htext : cs = front ++ [c] ++ back)
      (hkind : TokenKind.ofSymbol? c = some kind) :
      Slices cs ⟨.symbol kind c, front.length, front.length + 1⟩

/-- Slices from one position of a text to another, with blanks between them. -/
inductive Tiles (cs : List Char) (stop : Nat) : Nat → List Lexeme → Prop where
  | done : Tiles cs stop stop []
  | blank {i : Nat} {c : Char} {words : List Lexeme} (hc : cs[i]? = some c)
      (hblank : Text.isBlank c = true) (h : Tiles cs stop (i + 1) words) : Tiles cs stop i words
  | slice {word : Lexeme} {words : List Lexeme} (hword : word.Slices cs)
      (h : Tiles cs stop word.stop words) : Tiles cs stop word.start (word :: words)

/-- The words that are scanned from a text, and the position at which scanning ends: behind the last
character, or at the first one that is unknown. -/
inductive ScannedTo (cs : List Char) (words : List Lexeme) : Nat → Lexed → Prop where
  | endOfText (hknown : ∀ c ∈ cs, Text.isKnown c = true) :
      ScannedTo cs words cs.length ⟨words ++ [⟨.endOfText, cs.length, cs.length⟩], none⟩
  | unknown {front back : List Char} {c : Char} (htext : cs = front ++ c :: back)
      (hfront : ∀ ch ∈ front, Text.isKnown ch = true) (hc : Text.isKnown c = false) :
      ScannedTo cs words front.length ⟨words, some ⟨c, front.length⟩⟩

namespace Text

theorem isLetter_eq_false_of_isDigit {c : Char} (h : isDigit c = true) : isLetter c = false := by
  rw [Bool.eq_false_iff]
  intro hletter
  rw [isDigit_eq_false_of_isLetter hletter] at h
  cases h

theorem lt_ten_of_digitValueFrom {starts : List Nat} {n d : Nat}
    (h : digitValueFrom starts n = some d) : d < 10 := by
  induction starts with
  | nil => cases h
  | cons start starts ih =>
    rw [digitValueFrom] at h
    split at h
    · cases h
    · split at h
      · obtain rfl := Option.some.inj h
        omega
      · exact ih h

/-- A run of digits denotes the number that its digit values form in base ten. -/
theorem exists_digits {run : List Char} (h : ∀ c ∈ run, isDigit c = true) :
    ∃ digits : List Nat, run.map digitValue? = digits.map some ∧ (∀ d ∈ digits, d < 10) ∧
      numberOfDigits run = Nat.ofDigits 10 digits.reverse := by
  induction run using List.reverseRecOn with
  | nil => exact ⟨[], rfl, fun _ hd => absurd hd List.not_mem_nil, rfl⟩
  | append_singleton run c ih =>
    obtain ⟨hrun, hc⟩ := List.forall_mem_append.mp h
    obtain ⟨digits, hdigits, hten, hvalue⟩ := ih hrun
    obtain ⟨d, hd⟩ := Option.isSome_iff_exists.mp (hc c List.mem_cons_self)
    refine ⟨digits ++ [d], ?_, ?_, ?_⟩
    · rw [List.map_append, hdigits, List.map_append, List.map_singleton, hd, List.map_singleton]
    · exact List.forall_mem_append.mpr
        ⟨hten, List.forall_mem_singleton.mpr (lt_ten_of_digitValueFrom hd)⟩
    · rw [numberOfDigits] at hvalue ⊢
      rw [List.foldl_append, hvalue, List.foldl_cons, List.foldl_nil, hd, List.reverse_append,
        List.reverse_singleton, List.singleton_append, Nat.ofDigits_cons]
      simp only [Option.getD_some]
      omega

theorem firstUnknown?_eq_some {cs : List Char} {position : Nat} {unknown : UnknownCharacter}
    (h : firstUnknown? cs position = some unknown) :
    ∃ front c back, cs = front ++ c :: back ∧ (∀ ch ∈ front, isKnown ch = true) ∧
      isKnown c = false ∧ unknown = ⟨c, position + front.length⟩ := by
  induction cs generalizing position with
  | nil => cases h
  | cons c cs ih =>
    rw [firstUnknown?] at h
    split at h
    · next hc =>
      obtain ⟨front, c', back, rfl, hfront, hc', rfl⟩ := ih h
      refine ⟨c :: front, c', back, rfl, List.forall_mem_cons.mpr ⟨hc, hfront⟩, hc', ?_⟩
      rw [List.length_cons, Nat.add_assoc, Nat.add_comm 1]
    · next hc =>
      obtain rfl := Option.some.inj h
      exact ⟨[], c, cs, rfl, fun _ hch => absurd hch List.not_mem_nil, Bool.eq_false_iff.mpr hc,
        rfl⟩

end Text

section Slices

variable {cs : List Char} {word : Lexeme} {words : List Lexeme} {i start stop : Nat}

theorem Lexeme.Slices.start_lt (h : word.Slices cs) : word.start < word.stop := by
  cases h with
  | integer htext hrun =>
    have hpos := List.length_pos_of_ne_nil hrun.ne_nil
    exact Nat.lt_add_of_pos_right hpos
  | identifier htext hrun =>
    have hpos := List.length_pos_of_ne_nil hrun.ne_nil
    exact Nat.lt_add_of_pos_right hpos
  | symbol htext hkind => exact Nat.lt_succ_self _

theorem exists_getElem?_of_run {p : Char → Bool} {front run back : List Char}
    (hrun : ∀ c ∈ run, p c = true) (hstart : front.length ≤ i)
    (hstop : i < front.length + run.length) :
    ∃ c, (front ++ run ++ back)[i]? = some c ∧ p c = true := by
  have hlt : i - front.length < run.length := by omega
  refine ⟨run[i - front.length], ?_, hrun _ (List.getElem_mem hlt)⟩
  rw [List.append_assoc, List.getElem?_append_right hstart, List.getElem?_append_left hlt,
    List.getElem?_eq_getElem hlt]

/-- No token is read from blanks. -/
theorem Lexeme.Slices.not_blank (h : word.Slices cs) (hstart : word.start ≤ i)
    (hstop : i < word.stop) : ∃ c, cs[i]? = some c ∧ Text.isBlank c = false := by
  cases h with
  | integer htext hrun =>
    obtain ⟨c, hc, hdigit⟩ := exists_getElem?_of_run hrun.inside hstart hstop
    exact ⟨c, htext ▸ hc, Text.isBlank_eq_false_of_isDigit hdigit⟩
  | identifier htext hrun =>
    obtain ⟨c, hc, hletter⟩ := exists_getElem?_of_run hrun.inside hstart hstop
    exact ⟨c, htext ▸ hc, Text.isBlank_eq_false_of_isLetter hletter⟩
  | @symbol front back c kind htext hkind =>
    have hsymbol : ∀ ch ∈ [c], (!Text.isBlank ch) = true := by
      rw [List.forall_mem_singleton, (Text.symbols_apart c (TokenKind.mem_of_ofSymbol? hkind).1).1]
      rfl
    obtain ⟨ch, hch, hblank⟩ := exists_getElem?_of_run hsymbol hstart hstop
    exact ⟨ch, htext ▸ hch, by simpa using hblank⟩

namespace Tiles

theorem forall_slices (h : Tiles cs stop start words) : ∀ word ∈ words, word.Slices cs := by
  induction h with
  | done => exact fun _ hmem => absurd hmem List.not_mem_nil
  | blank hc hblank h ih => exact ih
  | slice hword h ih => exact List.forall_mem_cons.mpr ⟨hword, ih⟩

theorem start_le (h : Tiles cs stop start words) : start ≤ stop := by
  induction h with
  | done => exact Nat.le_refl _
  | blank hc hblank h ih => omega
  | slice hword h ih =>
    have hlt := hword.start_lt
    omega

theorem le_start (h : Tiles cs stop start words) : ∀ word ∈ words, start ≤ word.start := by
  induction h with
  | done => exact fun _ hmem => absurd hmem List.not_mem_nil
  | blank hc hblank h ih =>
    intro word hmem
    have hle := ih word hmem
    omega
  | slice hword h ih =>
    have hlt := hword.start_lt
    refine List.forall_mem_cons.mpr ⟨Nat.le_refl _, fun word hmem => ?_⟩
    have hle := ih word hmem
    omega

/-- The slices lie one behind the other. -/
theorem pairwise (h : Tiles cs stop start words) :
    words.Pairwise fun v w => v.stop ≤ w.start := by
  induction h with
  | done => exact .nil
  | blank hc hblank h ih => exact ih
  | slice hword h ih => exact List.pairwise_cons.mpr ⟨h.le_start, ih⟩

theorem length_le (h : Tiles cs stop start words) : start + words.length ≤ stop := by
  induction h with
  | done => exact Nat.le_refl _
  | blank hc hblank h ih => omega
  | slice hword h ih =>
    have hlt := hword.start_lt
    rw [List.length_cons]
    omega

/-- A position lies in one of the slices exactly if its character is not blank. -/
theorem mem_slice_iff (h : Tiles cs stop start words) (hi : start ≤ i) :
    (∃ word ∈ words, word.start ≤ i ∧ i < word.stop) ↔
      i < stop ∧ ∃ c, cs[i]? = some c ∧ Text.isBlank c = false := by
  induction h with
  | done =>
    constructor
    · rintro ⟨word, hmem, -⟩
      exact absurd hmem List.not_mem_nil
    · rintro ⟨hlt, -⟩
      omega
  | @blank j c words hc hblank h ih =>
    by_cases hij : i = j
    · -- The blank itself is in no slice, since all of them begin behind it.
      subst hij
      constructor
      · rintro ⟨word, hmem, hle, -⟩
        have hbehind := h.le_start word hmem
        omega
      · rintro ⟨-, c', hc', hnot⟩
        rw [hc] at hc'
        obtain rfl := Option.some.inj hc'
        rw [hblank] at hnot
        cases hnot
    · exact ih (by omega)
  | @slice word words hword h ih =>
    by_cases hinside : i < word.stop
    · constructor
      · rintro -
        exact ⟨Nat.lt_of_lt_of_le hinside h.start_le, hword.not_blank hi hinside⟩
      · rintro -
        exact ⟨word, List.mem_cons_self, hi, hinside⟩
    · rw [← ih (Nat.le_of_not_lt hinside)]
      constructor
      · rintro ⟨w, hmem, hle, hlt⟩
        rcases List.mem_cons.mp hmem with rfl | hmem
        · exact absurd hlt hinside
        · exact ⟨w, hmem, hle, hlt⟩
      · rintro ⟨w, hmem, hle, hlt⟩
        exact ⟨w, List.mem_cons_of_mem _ hmem, hle, hlt⟩

theorem blanks {front run back : List Char} (htext : cs = front ++ run ++ back)
    (hrun : ∀ c ∈ run, Text.isBlank c = true)
    (h : Tiles cs stop (front.length + run.length) words) : Tiles cs stop front.length words := by
  induction run generalizing front with
  | nil => exact h
  | cons c run ih =>
    obtain ⟨hc, hrun⟩ := List.forall_mem_cons.mp hrun
    have hrest : Tiles cs stop (front ++ [c]).length words := by
      apply ih _ hrun
      · rw [List.length_append, List.length_singleton, Nat.add_assoc, Nat.add_comm 1]
        exact h
      · rw [htext, List.append_assoc, List.append_assoc, List.append_assoc]
        rfl
    rw [List.length_append, List.length_singleton] at hrest
    refine .blank ?_ hc hrest
    rw [htext, List.append_assoc, List.getElem?_append_right (Nat.le_refl _), Nat.sub_self]
    rfl

end Tiles

end Slices

/-- No run of characters that satisfy the test goes through between two parts of a text. -/
def Parts (p : Char → Bool) (front back : List Char) : Prop :=
  ∀ a ∈ front.getLast?, p a = true → ∀ b ∈ back.head?, p b = false

namespace Cursor

/-- The cursor stands in a text behind the given front, and neither in a number nor in a name. -/
structure StandsBehind (cs front : List Char) (c : Cursor) : Prop where
  text : cs = front ++ c.rest
  position : front.length = c.position
  digits : Parts Text.isDigit front c.rest
  letters : Parts Text.isLetter front c.rest

variable {cs front : List Char} {c : Cursor} {p q : Char → Bool}

/-- Behind a run of one kind no run of that kind goes on, and none of a kind without common
characters has begun. -/
theorem parts_skip (h : Parts q front c.rest) (hpq : q = p ∨ ∀ ch, p ch = true → q ch = false) :
    Parts q (front ++ c.run p) (c.skip p).rest := by
  rcases List.eq_nil_or_concat (c.run p) with hrun | ⟨run, last, hrun⟩
  · have hrest := c.rest_eq_run_append p
    rw [hrun, List.nil_append] at hrest
    rw [hrun, List.append_nil, ← hrest]
    exact h
  · intro a ha hq b hb
    rw [hrun, List.concat_eq_append, ← List.append_assoc, List.getLast?_concat] at ha
    obtain rfl := Option.some.inj ha
    have hlast : p last = true := by
      apply of_mem_run (c := c)
      rw [hrun]
      simp
    rcases hpq with rfl | hpq
    · exact head_rest_skip q c b hb
    · rw [hpq last hlast] at hq
      cases hq

theorem StandsBehind.skip (h : c.StandsBehind cs front)
    (hdigit : Text.isDigit = p ∨ ∀ ch, p ch = true → Text.isDigit ch = false)
    (hletter : Text.isLetter = p ∨ ∀ ch, p ch = true → Text.isLetter ch = false) :
    (c.skip p).StandsBehind cs (front ++ c.run p) where
  text := by rw [List.append_assoc, ← rest_eq_run_append, ← h.text]
  position := by rw [List.length_append, h.position]; rfl
  digits := parts_skip h.digits hdigit
  letters := parts_skip h.letters hletter

theorem StandsBehind.skipBlanks (h : c.StandsBehind cs front) :
    c.skipBlanks.StandsBehind cs (front ++ c.run Text.isBlank) := by
  refine h.skip (Or.inr fun ch hblank => ?_) (Or.inr fun ch hblank => ?_)
  · rw [Bool.eq_false_iff]
    intro hdigit
    rw [Text.isBlank_eq_false_of_isDigit hdigit] at hblank
    cases hblank
  · rw [Bool.eq_false_iff]
    intro hletter
    rw [Text.isBlank_eq_false_of_isLetter hletter] at hblank
    cases hblank

theorem StandsBehind.advance {ch : Char} {rest : List Char} (h : c.StandsBehind cs front)
    (hrest : c.rest = ch :: rest) (hdigit : Text.isDigit ch = false)
    (hletter : Text.isLetter ch = false) : c.advance.StandsBehind cs (front ++ [ch]) where
  text := by rw [h.text, hrest, Cursor.advance, hrest, List.drop_one, List.append_assoc]; rfl
  position := by rw [List.length_append, h.position]; rfl
  digits := by
    intro a ha hdigit'
    rw [List.getLast?_concat] at ha
    obtain rfl := Option.some.inj ha
    rw [hdigit] at hdigit'
    cases hdigit'
  letters := by
    intro a ha hletter'
    rw [List.getLast?_concat] at ha
    obtain rfl := Option.some.inj ha
    rw [hletter] at hletter'
    cases hletter'

theorem maximalRun {ch : Char} {rest : List Char} (hparts : Parts p front c.rest)
    (hrest : c.rest = ch :: rest) (hch : p ch = true) :
    MaximalRun p front (c.run p) (c.skip p).rest where
  ne_nil := run_ne_nil hrest hch
  inside := of_mem_run
  before := by
    intro a ha
    rw [Bool.eq_false_iff]
    intro hp
    have hnot := hparts a ha hp ch (by rw [hrest]; rfl)
    rw [hch] at hnot
    cases hnot
  behind := head_rest_skip p c

theorem StandsBehind.text_run (h : c.StandsBehind cs front) (p : Char → Bool) :
    cs = front ++ c.run p ++ (c.skip p).rest := by
  rw [List.append_assoc, ← rest_eq_run_append, ← h.text]

theorem StandsBehind.tiles_of_skipBlanks {stop : Nat} {words : List Lexeme}
    (h : c.StandsBehind cs front) (htiles : Tiles cs stop c.skipBlanks.position words) :
    Tiles cs stop c.position words := by
  rw [← h.position]
  apply Tiles.blanks (h.text_run Text.isBlank) of_mem_run
  rw [← List.length_append, h.skipBlanks.position]
  exact htiles

/-- What is read at a cursor is read from the slice of the text between the cursor and the one
behind it. -/
theorem slices_of_reads {token : Token} {after : Cursor} (h : c.Reads (.ok token) after)
    (hstands : c.StandsBehind cs front) (hkind : token.kind ≠ .endOfText) :
    (Lexeme.mk token c.position after.position).Slices cs ∧
      ∃ front', after.StandsBehind cs front' := by
  cases h with
  | endOfText hrest => exact absurd rfl hkind
  | integer hrest hdigit =>
    obtain ⟨digits, hdigits, hten, hvalue⟩ := Text.exists_digits (of_mem_run (c := c))
    constructor
    · rw [hvalue, skip, ← hstands.position]
      exact .integer (hstands.text_run _) (maximalRun hstands.digits hrest hdigit) hdigits hten
    · exact ⟨_, hstands.skip (Or.inl rfl) (Or.inr fun _ => Text.isLetter_eq_false_of_isDigit)⟩
  | identifier hrest hletter =>
    constructor
    · rw [skip, ← hstands.position]
      exact .identifier (hstands.text_run _) (maximalRun hstands.letters hrest hletter)
    · exact ⟨_, hstands.skip (Or.inr fun _ => Text.isDigit_eq_false_of_isLetter) (Or.inl rfl)⟩
  | @symbol ch rest kind hrest hsymbol =>
    obtain ⟨-, hdigit, hletter⟩ := Text.symbols_apart ch (TokenKind.mem_of_ofSymbol? hsymbol).1
    constructor
    · rw [Cursor.advance, ← hstands.position]
      have htext : cs = front ++ [ch] ++ rest := by
        rw [hstands.text, hrest, List.append_assoc]
        rfl
      exact .symbol htext hsymbol
    · exact ⟨_, hstands.advance hrest hdigit hletter⟩

/-- Ahead of a cursor the slices of the tokens alternate with blanks, up to the end of the text or
to the character at which scanning fails. -/
theorem exists_tiles (c : Cursor) (hstands : c.StandsBehind cs front) :
    ∃ words stop, Tiles cs stop c.position words ∧
      match c.lexed.unknown? with
      | none => stop = cs.length ∧ c.lexed.lexemes = words ++ [⟨.endOfText, stop, stop⟩]
      | some unknown => stop = unknown.position ∧ c.lexed.lexemes = words := by
  induction c using lexedInduction generalizing front with
  | unknown c first after hnext hlexed =>
    refine ⟨[], c.skipBlanks.position, ?_, ?_⟩
    · exact hstands.tiles_of_skipBlanks .done
    · rw [hlexed]
      cases reads_of_tokenHere hnext with
      | unknown hrest hdigit hletter hsymbol => exact ⟨rfl, rfl⟩
  | endOfText c token after hnext hkind hlexed =>
    have hstands' := hstands.skipBlanks
    have hrest : c.skipBlanks.rest = [] := rest_skipBlanks_eq_nil hnext hkind
    have hend : c.skipBlanks.position = cs.length := by
      rw [← hstands'.position, hstands'.text, hrest, List.append_nil]
    refine ⟨[], c.skipBlanks.position, ?_, ?_⟩
    · exact hstands.tiles_of_skipBlanks .done
    · rw [hlexed]
      cases reads_of_tokenHere hnext with
      | endOfText _ => exact ⟨hend, rfl⟩
      | integer _ _ => cases hkind
      | identifier _ _ => cases hkind
      | symbol _ hsymbol => exact absurd hkind (TokenKind.mem_of_ofSymbol? hsymbol).2
  | token c token after hnext hkind hlexed ih =>
    have hstands' := hstands.skipBlanks
    obtain ⟨hslices, front', hafter⟩ :=
      slices_of_reads (reads_of_tokenHere hnext) hstands' hkind
    obtain ⟨words, stop, htiles, hend⟩ := ih hafter
    refine ⟨⟨token, c.skipBlanks.position, after.position⟩ :: words, stop, ?_, ?_⟩
    · exact hstands.tiles_of_skipBlanks (.slice hslices htiles)
    · rw [hlexed]
      cases hunknown : after.lexed.unknown? with
      | none =>
        rw [hunknown] at hend
        exact ⟨hend.1, congrArg (_ :: ·) hend.2⟩
      | some unknown =>
        rw [hunknown] at hend
        exact ⟨hend.1, congrArg (_ :: ·) hend.2⟩

theorem standsBehind_ofText (text : String) : (ofText text).StandsBehind text.toList [] where
  text := rfl
  position := rfl
  digits := fun _ h => nomatch h
  letters := fun _ h => nomatch h

/-- Scanning a text comes to finitely many words, none of them longer or shorter than it has to be,
and then to the end of the text or to its first unknown character. The slices of the words lie
one behind the other and cover all characters up to there but the blanks. -/
theorem lexed_slices (text : String) :
    ∃ words stop, ScannedTo text.toList words stop (ofText text).lexed ∧
      (∀ word ∈ words, word.Slices text.toList) ∧
      words.Pairwise (fun v w => v.stop ≤ w.start) ∧ words.length ≤ stop ∧
      ∀ i, (∃ word ∈ words, word.start ≤ i ∧ i < word.stop) ↔
        i < stop ∧ ∃ c, text.toList[i]? = some c ∧ Text.isBlank c = false := by
  obtain ⟨words, stop, htiles, hend⟩ := (ofText text).exists_tiles (standsBehind_ofText text)
  have hlength := htiles.length_le
  refine ⟨words, stop, ?_, htiles.forall_slices, htiles.pairwise, ?_, fun i => ?_⟩
  · have hunknown := unknown?_lexed_ofText text
    have heta : (ofText text).lexed = ⟨(ofText text).lexed.lexemes, (ofText text).lexed.unknown?⟩ :=
      rfl
    rw [heta]
    cases hfirst : (ofText text).lexed.unknown? with
    | none =>
      rw [hfirst] at hend hunknown
      obtain ⟨rfl, hlexemes⟩ := hend
      rw [hlexemes]
      exact .endOfText (Text.firstUnknown?_eq_none_iff.mp hunknown.symm)
    | some unknown =>
      rw [hfirst] at hend hunknown
      obtain ⟨rfl, hlexemes⟩ := hend
      obtain ⟨front, c, back, htext, hfront, hc, rfl⟩ := Text.firstUnknown?_eq_some hunknown.symm
      rw [hlexemes, Nat.zero_add]
      exact .unknown htext hfront hc
  · exact Nat.le_trans (Nat.le_add_left _ _) hlength
  · exact htiles.mem_slice_iff (Nat.zero_le i)

end Cursor

end LaurentCalc
