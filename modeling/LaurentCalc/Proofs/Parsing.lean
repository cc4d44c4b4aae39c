import LaurentCalc.Proofs.Acceptance

/-!
# Texts with an expression

A text is parsed if an expression stands at its beginning and what stands behind it may
be ignored. Parsing fails for one of two reasons: some tokens of the text cannot begin
any such text, or an unknown character stands behind tokens that could.
-/

namespace LaurentCalc

set_option autoImplicit false

/-- What may be ignored behind an expression: nothing, or tokens that begin with a closing
parenthesis, or with an opening one if the expression ends with a closing one. -/
def Ignored (front rest : List Token) : Prop :=
  ∀ next ∈ rest.head?, next.kind = .rightParen ∨
    next.kind = .leftParen ∧ ∃ last ∈ front.getLast?, last.kind = .rightParen

/-- The words are those of an expression and of a rest that is ignored. -/
structure Splits (words front rest : List Token) (e : Expr) : Prop where
  eq : words = front ++ rest
  derives : Derives .expression front e
  ignored : Ignored front rest

/-- The tokens of a whole text with an expression at its beginning. -/
def Acceptable (ts : List Token) : Prop :=
  ∃ words front rest e, ts = words ++ [.endOfText] ∧
    (∀ token ∈ words, token.kind ≠ .endOfText) ∧ Splits words front rest e

/-- No text with an expression at its beginning begins with the tokens. -/
def Hopeless (ts : List Token) : Prop := ∀ more, ¬Acceptable (ts ++ more)

namespace Cursor

/-- The tokens ahead, the end of the text apart. -/
def words (c : Cursor) : List Token := c.tokens.filter fun token => token.kind ≠ .endOfText

theorem token_eq_of_tokenHere {c after : Cursor} {token : Token}
    (h : c.tokenHere = (.ok token, after)) (hkind : token.kind = .endOfText) :
    token = .endOfText := by
  cases reads_of_tokenHere h with
  | endOfText hrest => rfl
  | integer hrest hdigit => cases hkind
  | identifier hrest hletter => cases hkind
  | symbol hrest hsymbol => exact absurd hkind (TokenKind.mem_of_ofSymbol? hsymbol).2

/-- The end of the text is the last token, unless an unknown character comes first. -/
theorem tokens_eq (c : Cursor) :
    c.tokens = c.words ++ if c.lexed.unknown?.isSome then [] else [.endOfText] := by
  rw [words, tokens]
  induction c using lexedInduction with
  | unknown c first after h hlexed =>
    rw [hlexed]
    rfl
  | endOfText c token after h hkind hlexed =>
    rw [hlexed, token_eq_of_tokenHere h hkind]
    rfl
  | token c token after h hkind hlexed ih =>
    rw [hlexed, List.map_cons, List.filter_cons_of_pos (by simpa using hkind), List.cons_append,
      ← ih]

theorem length_words_le (c : Cursor) : c.words.length ≤ c.rest.length := by
  rw [words, tokens]
  induction c using lexedInduction with
  | unknown c first after h hlexed =>
    rw [hlexed]
    exact Nat.zero_le _
  | endOfText c token after h hkind hlexed =>
    rw [hlexed]
    simp [hkind]
  | token c token after h hkind hlexed ih =>
    have hlt := length_next_lt h hkind
    rw [hlexed, List.map_cons, List.filter_cons_of_pos (by simpa using hkind), List.length_cons]
    omega

theorem ne_endOfText_of_mem_words {c : Cursor} :
    ∀ token ∈ c.words, token.kind ≠ .endOfText := by
  intro token htoken
  exact of_decide_eq_true (List.mem_filter.mp htoken).2

theorem proper_of_mem_words (c : Cursor) : ∀ token ∈ c.words, token.Proper := by
  intro token htoken
  exact c.proper_of_mem_tokens token (List.mem_filter.mp htoken).1

end Cursor

section

variable {ts words front rest : List Token} {e : Expr} {next : Token} {limit : Nat}
variable {fault : Fault}

theorem TokenKind.clashes_endOfText (kind : TokenKind) : kind.clashes .endOfText = false := by
  cases kind <;> rfl

theorem TokenKind.clashes_eq_false_iff {last : TokenKind} (kind : TokenKind)
    (h : last.closes = true) :
    BinaryOp.ofToken? kind = none ∧ last.clashes kind = false ↔
      kind = .endOfText ∨ kind = .rightParen ∨ kind = .leftParen ∧ last = .rightParen := by
  cases last <;> cases kind <;> simp_all [closes, clashes, BinaryOp.ofToken?]

/-- What cannot go on with an expression is the end of the text or begins what is ignored. -/
theorem Derives.ignored_iff (h : Derives .expression ts e) (hnext : next.kind ≠ .endOfText) :
    (BinaryOp.ofToken? next.kind = none ∧
      ∀ last ∈ ts.getLast?, last.kind.clashes next.kind = false) ↔ Ignored ts (next :: rest) := by
  obtain ⟨last, hlast, hcloses⟩ := h.closes_getLast
  have hkinds := TokenKind.clashes_eq_false_iff next.kind hcloses
  rw [or_iff_right hnext] at hkinds
  simp only [Ignored, hlast, List.head?_cons, Option.mem_def, Option.some.injEq, forall_eq',
    exists_eq_left']
  exact hkinds

theorem Derives.run_eq_finished (h : Derives .expression ts e) (hlimit : ts.length ≤ limit)
    (hnext : BinaryOp.ofToken? next.kind = none)
    (hclash : ∀ last ∈ ts.getLast?, last.kind.clashes next.kind = false) :
    Reading.start.run limit (ts ++ next :: rest) = .finished e (next :: rest) := by
  obtain ⟨inner, operand, hsettle, hpassed⟩ := h.read_expression (Reading.passes_run limit) hclash
    (Nat.le_trans h.groups_add_nesting_le hlimit)
  rw [Reading.start, hpassed, Reading.run, Reading.step_fresh, act_end hnext hsettle]

/-- Words that split are read up to the rest. -/
theorem Splits.run_eq_finished (h : Splits words front rest e) (hlimit : words.length ≤ limit)
    (hwords : ∀ token ∈ words, token.kind ≠ .endOfText) :
    Reading.start.run limit (words ++ [.endOfText]) = .finished e (rest ++ [.endOfText]) := by
  obtain ⟨rfl, hderives, hignored⟩ := h
  rw [List.length_append] at hlimit
  rw [List.append_assoc]
  cases rest with
  | nil =>
    exact hderives.run_eq_finished (by omega) rfl fun last _ => last.kind.clashes_endOfText
  | cons next rest =>
    have hkind := hwords next (List.mem_append_right _ List.mem_cons_self)
    obtain ⟨hnext, hclash⟩ := (hderives.ignored_iff hkind).mpr hignored
    exact hderives.run_eq_finished (by omega) hnext hclash

/-- Words split in at most one way. -/
theorem Splits.unique {front' rest' : List Token} {e' : Expr}
    (hwords : ∀ token ∈ words, token.kind ≠ .endOfText)
    (h : Splits words front rest e) (h' : Splits words front' rest' e') :
    front = front' ∧ rest = rest' ∧ e = e' := by
  have hrun := h.run_eq_finished (Nat.le_refl _) hwords
  rw [h'.run_eq_finished (Nat.le_refl _) hwords] at hrun
  injection hrun with he hrest
  have hrest := List.append_cancel_right hrest
  have heq := h.eq
  rw [h'.eq, hrest] at heq
  exact ⟨(List.append_cancel_right heq).symm, hrest.symm, he.symm⟩

theorem splits_of_run_eq_finished (hwords : ∀ token ∈ words, token.kind ≠ .endOfText)
    (hproper : ∀ token ∈ words, token.Proper)
    (hrun : Reading.start.run limit words = .finished e rest) :
    ∃ front, Splits words front rest e := by
  obtain ⟨front, next, more, heq, rfl, hderives, hnext⟩ :=
    Reading.holds_start.run_finished hproper hrun
  have hkind := hwords next (by rw [heq]; exact List.mem_append_right _ List.mem_cons_self)
  exact ⟨front, heq, hderives, (hderives.ignored_iff hkind).mp hnext⟩

theorem splits_of_derives (h : Derives .expression words e) : Splits words words [] e :=
  ⟨(List.append_nil words).symm, h, fun _ hnext => by cases hnext⟩

theorem Acceptable.run_eq_finished (h : Acceptable ts) (hlimit : ts.length ≤ limit) :
    ∃ e ahead, Reading.start.run limit ts = .finished e ahead := by
  obtain ⟨words, front, rest, e, rfl, hwords, hsplits⟩ := h
  rw [List.length_append] at hlimit
  exact ⟨e, _, hsplits.run_eq_finished (by omega) hwords⟩

/-- Nothing can follow tokens that miss the grammar. -/
theorem hopeless_of_run_eq_failed {f : SyntaxFault}
    (h : Reading.start.run limit ts = .failed (.malformed f)) : Hopeless ts := by
  intro more hmore
  obtain ⟨e, ahead, hrun⟩ := hmore.run_eq_finished (Nat.le_refl _)
  -- The failure does not depend on the limit, so it also comes where the rest would be read.
  have hsame : Reading.start.run (ts ++ more).length ts = .failed (.malformed f) := by
    rw [← h]
    apply Reading.run_of_length_le
    · rw [List.length_append]
      exact Nat.le_add_right _ _
    · rw [h]
      intro hdeep
      cases hdeep
  rw [Reading.run_append, hsame] at hrun
  cases hrun

theorem Hopeless.append (h : Hopeless ts) (more : List Token) : Hopeless (ts ++ more) := by
  intro further
  rw [List.append_assoc]
  exact h (more ++ further)

theorem Splits.not_hopeless (h : Splits words front rest e)
    (hwords : ∀ token ∈ words, token.kind ≠ .endOfText) : ¬Hopeless words := by
  intro hhopeless
  exact hhopeless [.endOfText] ⟨words, front, rest, e, rfl, hwords, h⟩

theorem not_hopeless_of_derives {more : List Token} (h : Derives .expression (ts ++ more) e) :
    ¬Hopeless ts := by
  intro hhopeless
  exact (splits_of_derives h).not_hopeless h.ne_endOfText (hhopeless.append more)

theorem exists_hopeless_iff : (∃ seen, seen <+: ts ∧ Hopeless seen) ↔ Hopeless ts := by
  constructor
  · rintro ⟨seen, ⟨more, rfl⟩, hseen⟩
    exact hseen.append more
  · intro h
    exact ⟨ts, List.prefix_refl ts, h⟩

theorem Splits.not_hopeless_tokens {c : Cursor} (h : Splits c.words front rest e)
    (hknown : c.lexed.unknown? = none) : ¬Hopeless c.tokens := by
  intro hhopeless
  apply hhopeless []
  refine ⟨c.words, front, rest, e, ?_, Cursor.ne_endOfText_of_mem_words, h⟩
  rw [List.append_nil, c.tokens_eq, hknown]
  rfl

theorem Reading.run_eq_failed (h : start.run limit ts = .failed fault) :
    (∃ f, fault = .malformed f) ∨ fault = .nestedTooDeeply ∧ limit < ts.length := by
  refine (fault_of_run_eq_failed h).imp_right ?_
  rintro rfl
  have hlt := limit_lt_of_run h
  rw [start, List.length_nil] at hlt
  exact ⟨rfl, by omega⟩

end

namespace Expr

/-- What parsing a text comes to: the limit is exceeded, or the words split and all of the text is
scanned, or an unknown character follows tokens that could be gone on with, or the tokens miss the
grammar. -/
theorem parse_cases (limit : Nat) (text : String) :
    (parse limit text = .error .nestedTooDeeply ∧ limit < text.length) ∨
      (∃ e front rest, parse limit text = .ok e ∧ (Cursor.ofText text).lexed.unknown? = none ∧
        Splits (Cursor.ofText text).words front rest e) ∨
      (∃ unknown, parse limit text = .error (.unknownCharacter unknown) ∧
        (Cursor.ofText text).lexed.unknown? = some unknown ∧
        ¬Hopeless (Cursor.ofText text).tokens) ∨
      ∃ f, parse limit text = .error (.malformed f) ∧ Hopeless (Cursor.ofText text).tokens := by
  have hproper := (Cursor.ofText text).proper_of_mem_words
  have hlength := (Cursor.ofText text).length_words_le
  rw [Cursor.ofText, String.length_toList, ← Cursor.ofText] at hlength
  rw [parse_eq_run, (Cursor.ofText text).tokens_eq, Reading.run_append]
  cases hrun : Reading.start.run limit (Cursor.ofText text).words with
  | ongoing r =>
    have hholds := Reading.holds_start.run_ongoing hproper hrun
    rw [List.nil_append] at hholds
    cases (Cursor.ofText text).lexed.unknown? with
    | some unknown =>
      obtain ⟨more, whole, hwhole⟩ := hholds.complete
      refine Or.inr (Or.inr (Or.inl ⟨unknown, rfl, rfl, ?_⟩))
      exact not_hopeless_of_derives (by rwa [List.append_assoc])
    | none =>
      -- All words are read, and the end of the text leads no further.
      rcases r.step_endOfText limit with ⟨e, hstep⟩ | ⟨f, hstep⟩
      · have hend : r.run limit [.endOfText] = .finished e [.endOfText] := by
          rw [Reading.run, hstep]
        refine Or.inr (Or.inl ⟨e, _, [], ?_, rfl, splits_of_derives (hholds.finish hstep).1⟩)
        exact congrArg (fun v : Verdict => v.outcome none >>= Except.ok) hend
      · have hend : r.run limit [.endOfText] = .failed (.malformed f) := by
          rw [Reading.run, hstep]
        refine Or.inr (Or.inr (Or.inr ⟨f, ?_, ?_⟩))
        · exact congrArg (fun v : Verdict => v.outcome none >>= Except.ok) hend
        · apply hopeless_of_run_eq_failed
          rw [Reading.run_append, hrun]
          exact hend
  | finished e rest =>
    obtain ⟨front, hsplits⟩ :=
      splits_of_run_eq_finished Cursor.ne_endOfText_of_mem_words hproper hrun
    cases (Cursor.ofText text).lexed.unknown? with
    | some unknown =>
      refine Or.inr (Or.inr (Or.inl ⟨unknown, rfl, rfl, ?_⟩))
      have hhope := hsplits.not_hopeless Cursor.ne_endOfText_of_mem_words
      rwa [← List.append_nil (Cursor.ofText text).words] at hhope
    | none => exact Or.inr (Or.inl ⟨e, front, rest, rfl, rfl, hsplits⟩)
  | failed fault =>
    rcases Reading.run_eq_failed hrun with ⟨f, rfl⟩ | ⟨rfl, hlt⟩
    · exact Or.inr (Or.inr (Or.inr ⟨f, rfl, (hopeless_of_run_eq_failed hrun).append _⟩))
    · exact Or.inl ⟨rfl, Nat.lt_of_lt_of_le hlt hlength⟩

/-- Unless the limit is exceeded, a text is parsed exactly if all of it is scanned and its words are
those of an expression and a rest that is ignored; there is one such split at most. Otherwise
parsing fails for the grammar if the tokens before the first unknown character begin with some that
nothing can follow, and for that character if they do not. -/
theorem parse_outcome (limit : Nat) (text : String) :
    ((parse limit text = .error .nestedTooDeeply ∧ limit < text.length) ∨
      (∀ e, parse limit text = .ok e ↔ (Cursor.ofText text).lexed.unknown? = none ∧
        ∃ front rest, Splits (Cursor.ofText text).words front rest e) ∧
      ∀ fault, parse limit text = .error fault →
        ((∃ seen, seen <+: (Cursor.ofText text).tokens ∧ Hopeless seen) ∧
          ∃ f, fault = .malformed f) ∨
        ((¬∃ seen, seen <+: (Cursor.ofText text).tokens ∧ Hopeless seen) ∧
          ∃ unknown, (Cursor.ofText text).lexed.unknown? = some unknown ∧
            fault = .unknownCharacter unknown)) ∧
    ∀ front front' rest rest' e e', Splits (Cursor.ofText text).words front rest e →
      Splits (Cursor.ofText text).words front' rest' e' →
        front = front' ∧ rest = rest' ∧ e = e' := by
  simp only [exists_hopeless_iff]
  constructor
  · rcases parse_cases limit text with hdeep | ⟨e, front, rest, hparse, hknown, hsplits⟩ |
      ⟨unknown, hparse, hunknown, hhopeless⟩ | ⟨f, hparse, hhopeless⟩
    · exact Or.inl hdeep
    · right
      simp only [hparse, hknown, Except.ok.injEq, reduceCtorEq, false_implies, implies_true,
        and_true, true_and]
      intro e'
      constructor
      · rintro rfl
        exact ⟨front, rest, hsplits⟩
      · rintro ⟨front', rest', hsplits'⟩
        exact (hsplits.unique Cursor.ne_endOfText_of_mem_words hsplits').2.2
    · right
      simp only [hparse, hunknown, Except.error.injEq, reduceCtorEq, false_and, implies_true,
        true_and]
      rintro fault rfl
      exact Or.inr ⟨hhopeless, unknown, rfl, rfl⟩
    · right
      simp only [hparse, Except.error.injEq, reduceCtorEq, false_iff]
      constructor
      · rintro e ⟨hknown, front, rest, hsplits⟩
        exact hsplits.not_hopeless_tokens hknown hhopeless
      · rintro fault rfl
        exact Or.inl ⟨hhopeless, f, rfl⟩
  · intro front front' rest rest' e e' h h'
    exact h.unique Cursor.ne_endOfText_of_mem_words h'

example : parse 600 "(2)(3)" = .ok (.number 2) := by cbv

end Expr

end LaurentCalc
