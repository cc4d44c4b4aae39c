import LaurentCalc.Proofs.Parsing

/-!
# Unknown characters

Scanning a text stops at its first unknown character, with the position of that
character, and a text without unknown characters is scanned to its end. The first
unknown character is reported if the tokens in front of it can be gone on with; if they
cannot, it is never reached.
-/

namespace LaurentCalc

set_option autoImplicit false

namespace Text

def isKnown (c : Char) : Bool := isBlank c || isDigit c || isLetter c || symbols.contains c

/-- The first unknown character, where the first character of all has the given position. -/
def firstUnknown? : List Char → (position : Nat) → Option UnknownCharacter
  | [], _ => none
  | c :: cs, position =>
    if isKnown c then firstUnknown? cs (position + 1) else some ⟨c, position⟩

variable {c : Char}

theorem isKnown_of_isBlank (h : isBlank c = true) : isKnown c = true := by
  rw [isKnown, h]
  rfl

theorem isKnown_of_isDigit (h : isDigit c = true) : isKnown c = true := by
  rw [isKnown, h, Bool.or_true]
  rfl

theorem isKnown_of_isLetter (h : isLetter c = true) : isKnown c = true := by
  rw [isKnown, h, Bool.or_true]
  rfl

theorem isKnown_of_mem_symbols (h : c ∈ symbols) : isKnown c = true := by
  rw [isKnown, List.contains_iff_mem.mpr h, Bool.or_true]

theorem firstUnknown?_eq_none_iff {cs : List Char} {position : Nat} :
    firstUnknown? cs position = none ↔ ∀ c ∈ cs, isKnown c = true := by
  induction cs generalizing position with
  | nil => exact ⟨fun _ _ hc => absurd hc List.not_mem_nil, fun _ => rfl⟩
  | cons c cs ih =>
    rw [firstUnknown?, List.forall_mem_cons]
    by_cases hc : isKnown c = true
    · rw [if_pos hc, ih]
      exact (and_iff_right hc).symm
    · rw [if_neg hc]
      constructor
      · intro h
        cases h
      · intro h
        exact absurd h.1 hc

end Text

theorem TokenKind.mem_symbols_iff {c : Char} : c ∈ Text.symbols ↔ ofSymbol? c ≠ none := by
  constructor
  · intro h
    have hall : (Text.symbols.all fun c => (ofSymbol? c).isSome) = true := rfl
    exact Option.isSome_iff_ne_none.mp (List.all_eq_true.mp hall c h)
  · intro h
    obtain ⟨kind, hkind⟩ := Option.ne_none_iff_exists'.mp h
    exact (mem_of_ofSymbol? hkind).1

namespace Cursor

def unknownAhead? (c : Cursor) : Option UnknownCharacter := Text.firstUnknown? c.rest c.position

variable {c : Cursor}

theorem unknownAhead?_advance {ch : Char} {rest : List Char} (hrest : c.rest = ch :: rest)
    (hch : Text.isKnown ch = true) : c.advance.unknownAhead? = c.unknownAhead? := by
  rw [unknownAhead?, unknownAhead?, advance, hrest, Text.firstUnknown?, if_pos hch]
  rfl

/-- Known characters may be skipped. -/
theorem unknownAhead?_skip {p : Char → Bool} (hp : ∀ ch, p ch = true → Text.isKnown ch = true)
    (c : Cursor) : (c.skip p).unknownAhead? = c.unknownAhead? := by
  obtain ⟨rest, position⟩ := c
  induction rest generalizing position with
  | nil => rfl
  | cons ch rest ih =>
    by_cases hch : p ch = true
    · have hskip : (Cursor.mk (ch :: rest) position).skip p =
          (Cursor.mk rest (position + 1)).skip p := by
        simp only [skip, run, List.dropWhile_cons, List.takeWhile_cons, hch, if_true,
          List.length_cons]
        rw [Nat.add_assoc, Nat.add_comm 1]
      have hadvance := unknownAhead?_advance (c := ⟨ch :: rest, position⟩) rfl (hp ch hch)
      rw [hskip, ih, ← hadvance]
      rfl
    · have hskip : (Cursor.mk (ch :: rest) position).skip p = ⟨ch :: rest, position⟩ := by
        apply skip_of_head
        rintro _ ⟨⟩
        exact Bool.eq_false_iff.mpr hch
      rw [hskip]

theorem unknownAhead?_skipBlanks (c : Cursor) : c.skipBlanks.unknownAhead? = c.unknownAhead? :=
  unknownAhead?_skip (fun _ => Text.isKnown_of_isBlank) c

theorem isKnown_eq_false {ch : Char} (hblank : Text.isBlank ch = false)
    (hdigit : Text.isDigit ch = false) (hletter : Text.isLetter ch = false)
    (hsymbol : TokenKind.ofSymbol? ch = none) : Text.isKnown ch = false := by
  have hmem : ch ∉ Text.symbols := by
    intro hmem
    exact TokenKind.mem_symbols_iff.mp hmem hsymbol
  simp [Text.isKnown, hblank, hdigit, hletter, hmem]

/-- A token is made of known characters, and what begins no token is unknown. -/
theorem Reads.unknownAhead?_eq {outcome : Except UnknownCharacter Token} {after : Cursor}
    (h : c.Reads outcome after) (hblank : ∀ ch ∈ c.rest.head?, Text.isBlank ch = false) :
    c.unknownAhead? =
      match outcome with
      | .error first => some first
      | .ok token => if token.kind = .endOfText then none else after.unknownAhead? := by
  cases h with
  | endOfText hrest =>
    rw [unknownAhead?, hrest]
    rfl
  | integer hrest hdigit => exact (unknownAhead?_skip (fun _ => Text.isKnown_of_isDigit) c).symm
  | identifier hrest hletter =>
    exact (unknownAhead?_skip (fun _ => Text.isKnown_of_isLetter) c).symm
  | symbol hrest hsymbol =>
    obtain ⟨hmem, hkind⟩ := TokenKind.mem_of_ofSymbol? hsymbol
    have hadvance := unknownAhead?_advance hrest (Text.isKnown_of_mem_symbols hmem)
    exact hadvance.symm.trans (if_neg hkind).symm
  | unknown hrest hdigit hletter hsymbol =>
    rw [hrest] at hblank
    rw [unknownAhead?, hrest, Text.firstUnknown?,
      isKnown_eq_false (hblank _ rfl) hdigit hletter hsymbol]
    rfl

/-- Scanning stops at the first unknown character, and nowhere else but at the end. -/
theorem unknown?_lexed (c : Cursor) : c.lexed.unknown? = c.unknownAhead? := by
  induction c using lexedInduction with
  | unknown c first after h hlexed =>
    have hreads := (reads_of_tokenHere h).unknownAhead?_eq (c.head_rest_skip Text.isBlank)
    rw [hlexed, ← unknownAhead?_skipBlanks, hreads]
  | endOfText c token after h hkind hlexed =>
    have hreads := (reads_of_tokenHere h).unknownAhead?_eq (c.head_rest_skip Text.isBlank)
    rw [hlexed, ← unknownAhead?_skipBlanks, hreads]
    exact (if_pos hkind).symm
  | token c token after h hkind hlexed ih =>
    have hreads := (reads_of_tokenHere h).unknownAhead?_eq (c.head_rest_skip Text.isBlank)
    rw [hlexed, ← unknownAhead?_skipBlanks, hreads, ih]
    exact (if_neg hkind).symm

theorem unknown?_lexed_ofText (text : String) :
    (ofText text).lexed.unknown? = Text.firstUnknown? text.toList 0 :=
  unknown?_lexed (ofText text)

end Cursor

variable {text : String}

/-- A text that is parsed has been scanned to its end. -/
theorem Expr.isKnown_of_parse_eq_ok {limit : Nat} {e : Expr} (h : parse limit text = .ok e) :
    ∀ c ∈ text.toList, Text.isKnown c = true := by
  rw [← Text.firstUnknown?_eq_none_iff, ← Cursor.unknown?_lexed_ofText]
  exact unknown_eq_none_of_parse_eq_ok h

/-- A text with an unknown character has no result. The first such character is reported, with its
position, if the tokens in front of it can be gone on with to a text that begins with an expression.
If they cannot, the text is reported as malformed, whatever comes behind these tokens. -/
theorem evaluate_text_with_unknown_character (limit : Nat) (debug : Bool)
    (h : ∃ c ∈ text.toList, Text.isKnown c = false) :
    ((evaluate limit debug text).outcome = .error .nestedTooDeeply ∧ limit < text.length) ∨
      (¬Hopeless (Cursor.ofText text).tokens ∧ ∃ unknown,
        Text.firstUnknown? text.toList 0 = some unknown ∧
        (evaluate limit debug text).reported text =
          .error ⟨.unknownCharacter, (Fault.unknownCharacter unknown).message, "3100",
            some text⟩) ∨
      (Hopeless (Cursor.ofText text).tokens ∧ ∃ fault : SyntaxFault,
        (evaluate limit debug text).reported text =
          .error ⟨.malformed, fault.message, "3101", some text⟩) := by
  have houtcome : ∀ {fault : Fault}, Expr.parse (callLimit limit) text = .error fault →
      (evaluate limit debug text).outcome = .error fault := by
    intro fault hparse
    rw [evaluate, hparse]
  rcases Expr.parse_cases (callLimit limit) text with ⟨hparse, hlt⟩ |
    ⟨e, front, rest, hparse, -⟩ | ⟨unknown, hparse, hunknown, hhope⟩ | ⟨fault, hparse, hhopeless⟩
  · exact Or.inl ⟨houtcome hparse, Nat.lt_of_le_of_lt (le_callLimit limit) hlt⟩
  · obtain ⟨c, hc, hunknown⟩ := h
    rw [Expr.isKnown_of_parse_eq_ok hparse c hc] at hunknown
    cases hunknown
  · rw [Cursor.unknown?_lexed_ofText] at hunknown
    right
    left
    exact ⟨hhope, unknown, hunknown,
      Evaluation.reported_eq_error_iff.mpr ⟨_, houtcome hparse, rfl⟩⟩
  · right
    right
    exact ⟨hhopeless, fault, Evaluation.reported_eq_error_iff.mpr ⟨_, houtcome hparse, rfl⟩⟩

set_option maxRecDepth 20000 in
theorem evaluate_unknown_character_behind_operand :
    ∃ unknown, Text.firstUnknown? "2 $ 3".toList 0 = some unknown ∧
      (evaluate 600 true "2 $ 3").reported "2 $ 3" =
        .error ⟨.unknownCharacter, (Fault.unknownCharacter unknown).message, "3100",
          some "2 $ 3"⟩ := by
  have hkind : (evaluate 600 true "2 $ 3").outcome = .error (.unknownCharacter ⟨'$', 2⟩) := by cbv
  have hunknown : ∃ c ∈ "2 $ 3".toList, Text.isKnown c = false := ⟨'$', by decide +kernel⟩
  rcases evaluate_text_with_unknown_character 600 true hunknown with ⟨hdeep, -⟩ | ⟨-, hreported⟩ |
    ⟨-, fault, hmalformed⟩
  · rw [hkind] at hdeep
    cases hdeep
  · exact hreported
  · rw [Evaluation.reported, hkind] at hmalformed
    cases hmalformed

set_option maxRecDepth 20000 in
/-- An unknown character behind two numbers side by side goes unreported. -/
theorem evaluate_hides_unknown_character :
    ¬∀ (limit : Nat) (debug : Bool) (text : String), text.length ≤ limit →
      (∃ c ∈ text.toList, Text.isKnown c = false) →
        ∃ report, (evaluate limit debug text).reported text = .error report ∧
          report.kind = .unknownCharacter := by
  intro h
  have hunknown : ∃ c ∈ "2 3 $".toList, Text.isKnown c = false := ⟨'$', by decide +kernel⟩
  obtain ⟨report, hreported, hkind⟩ := h 600 false "2 3 $" (by decide) hunknown
  have houtcome : (evaluate 600 false "2 3 $").outcome =
      .error (.malformed (.missingOperator (.number 2) (.number 3))) := by cbv
  rw [Evaluation.reported, houtcome] at hreported
  cases hreported
  cases hkind

end LaurentCalc
