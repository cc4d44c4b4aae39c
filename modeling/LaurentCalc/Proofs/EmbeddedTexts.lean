import LaurentCalc.Proofs.CanonicalPhrase
import LaurentCalc.Proofs.Parsing

/-!
# Texts inside texts

A text without unknown characters is scanned to the same tokens wherever it stands, unless a
number or a name goes on behind it. So a text that is an expression to its last token is that
expression between parentheses as well.
-/

namespace LaurentCalc

set_option autoImplicit false

namespace Cursor

variable {c after : Cursor} {token : Token} {rest : List Char} {us : List Token}

theorem words_of_endOfText (hkind : token.kind = .endOfText)
    (hlexed : c.lexed = ⟨[⟨token, c.skipBlanks.position, after.position⟩], none⟩) :
    c.words = [] := by
  rw [words, tokens, hlexed, List.map_singleton, List.filter_cons_of_neg (by simpa using hkind),
    List.filter_nil]

theorem words_of_token (hkind : token.kind ≠ .endOfText)
    (hlexed : c.lexed = ⟨⟨token, c.skipBlanks.position, after.position⟩ :: after.lexed.lexemes,
      after.lexed.unknown?⟩) : c.words = token :: after.words := by
  rw [words, tokens, hlexed, List.map_cons, List.filter_cons_of_pos (by simpa using hkind)]
  rfl

theorem rest_eq_run_append (p : Char → Bool) (c : Cursor) : c.rest = c.run p ++ (c.skip p).rest :=
  List.takeWhile_append_dropWhile.symm

theorem of_mem_run {p : Char → Bool} : ∀ ch ∈ c.run p, p ch = true :=
  List.all_eq_true.mp List.all_takeWhile

theorem run_ne_nil {p : Char → Bool} {ch : Char} {more : List Char} (hrest : c.rest = ch :: more)
    (hch : p ch = true) : c.run p ≠ [] := by
  rw [run, hrest, List.takeWhile_cons_of_pos hch]
  exact List.cons_ne_nil _ _

/-- Behind a run stands a character that ends it, or what is put there. -/
theorem head_skip_append {p : Char → Bool} (hrest : ∀ ch ∈ rest.head?, p ch = false) (c : Cursor) :
    ∀ ch ∈ ((c.skip p).rest ++ rest).head?, p ch = false := by
  have hstop := c.head_rest_skip p
  cases hskip : (c.skip p).rest with
  | nil => exact hrest
  | cons ch more =>
    rw [hskip] at hstop
    exact hstop

theorem rest_skipBlanks_eq_nil (h : c.next = (.ok token, after)) (hkind : token.kind = .endOfText) :
    c.skipBlanks.rest = [] := by
  cases reads_of_tokenHere h with
  | endOfText hrest => exact hrest
  | integer hrest hdigit => cases hkind
  | identifier hrest hletter => cases hkind
  | symbol hrest hsymbol => exact absurd hkind (TokenKind.mem_of_ofSymbol? hsymbol).2

/-- What is scanned to its end is scanned to the same tokens with more behind it. -/
theorem scans_append (c : Cursor) (hknown : c.lexed.unknown? = none) (hstops : Stops rest)
    (h : Scans rest us) : Scans (c.rest ++ rest) (c.words ++ us) := by
  induction c using lexedInduction with
  | unknown c first after hnext hlexed =>
    rw [hlexed] at hknown
    cases hknown
  | endOfText c token after hnext hkind hlexed =>
    rw [words_of_endOfText hkind hlexed, rest_eq_run_append Text.isBlank c,
      show (c.skip Text.isBlank).rest = [] from rest_skipBlanks_eq_nil hnext hkind,
      List.append_nil]
    exact Scans.blanks of_mem_run h
  | token c token after hnext hkind hlexed ih =>
    rw [hlexed] at hknown
    have hafter := ih hknown
    -- What is scanned here ends in the text itself, or else where the rest begins.
    have hhere : Scans (c.skipBlanks.rest ++ rest) (token :: (after.words ++ us)) := by
      cases reads_of_tokenHere hnext with
      | endOfText hrest => exact absurd rfl hkind
      | integer hrest hdigit =>
        rw [rest_eq_run_append Text.isDigit c.skipBlanks, List.append_assoc]
        exact Scans.digits (run_ne_nil hrest hdigit) of_mem_run
          (head_skip_append (fun ch hch => (hstops ch hch).1) _) hafter
      | identifier hrest hletter =>
        have hletters : ∀ ch ∈ c.skipBlanks.identifier.toList, Text.isLetter ch = true := by
          rw [identifier, String.toList_ofList]
          exact of_mem_run
        have hne : c.skipBlanks.identifier ≠ "" := by
          intro hempty
          have hnil := congrArg String.toList hempty
          rw [identifier, String.toList_ofList] at hnil
          exact run_ne_nil hrest hletter hnil
        have hscans := Scans.name hne hletters
          (head_skip_append (fun ch hch => (hstops ch hch).2) _) hafter
        rw [identifier, String.toList_ofList, ← List.append_assoc, ← rest_eq_run_append] at hscans
        exact hscans
      | symbol hrest hsymbol =>
        have hadvance := congrArg (List.drop 1) hrest
        rw [hrest]
        rw [show c.skipBlanks.advance.rest = _ from hadvance] at hafter
        exact hafter.symbol hsymbol
    rw [words_of_token hkind hlexed, rest_eq_run_append Text.isBlank c, List.append_assoc]
    exact Scans.blanks of_mem_run hhere

end Cursor

/-- Wherever the characters stand, they are scanned to tokens that make up the expression as a
phrase of the given level. -/
def Embeds (level : Level) (cs : List Char) (e : Expr) : Prop :=
  ∃ ts, Derives level ts e ∧
    ∀ rest us, Stops rest → Scans rest us → Scans (cs ++ rest) (ts ++ us)

namespace Embeds

variable {level level' : Level} {cs ds : List Char} {e l r : Expr} {text : String} {limit : Nat}

theorem of_writes (h : Writes level cs e) : Embeds level cs e := by
  obtain ⟨ts, hts, -, hscans⟩ := h
  exact ⟨ts, hts, hscans⟩

theorem of_splits (hknown : (Cursor.ofText text).lexed.unknown? = none)
    (h : Splits (Cursor.ofText text).words (Cursor.ofText text).words [] e) :
    Embeds .expression text.toList e :=
  ⟨_, h.derives, fun _ _ hstops hrest => (Cursor.ofText text).scans_append hknown hstops hrest⟩

theorem widen (hle : level.rank ≤ level'.rank) (h : Embeds level cs e) : Embeds level' cs e := by
  obtain ⟨ts, hts, hscans⟩ := h
  exact ⟨ts, hts.widen hle, hscans⟩

theorem group (h : Embeds .expression cs e) : Embeds .atom ('(' :: (cs ++ [')'])) e := by
  obtain ⟨ts, hts, hscans⟩ := h
  refine ⟨.symbol .leftParen '(' :: (ts ++ [.symbol .rightParen ')']), .group rfl rfl hts,
    fun rest us hstops hrest => ?_⟩
  have hright : TokenKind.ofSymbol? ')' = some .rightParen := rfl
  have hleft : TokenKind.ofSymbol? '(' = some .leftParen := rfl
  have hgroup := (hscans _ _ (stops_symbol hright rest) (hrest.symbol hright)).symbol hleft
  simpa using hgroup

/-- A quotient written with blanks around the operator. -/
theorem quotient (hl : Embeds .term cs l) (hr : Embeds .factor ds r) :
    Embeds .term (cs ++ ' ' :: '/' :: ' ' :: ds) (.scaling .div l r) := by
  obtain ⟨ts, hts, hscansLeft⟩ := hl
  obtain ⟨us, hus, hscansRight⟩ := hr
  have hderives : Derives .term (ts ++ .symbol .slash '/' :: us) (.binary (.scaling .div) l r) :=
    @Derives.binary (.symbol .slash '/') (.scaling .div) ts us l r rfl hts hus
  refine ⟨_, hderives, fun rest vs hstops hrest => ?_⟩
  have hblank : Text.isBlank ' ' = true := by decide
  rw [List.append_assoc, List.append_assoc]
  exact hscansLeft _ _ (stops_space _)
    ((((hscansRight rest vs hstops hrest).blank hblank).symbol rfl).blank hblank)

theorem splits (h : Embeds .expression text.toList e) :
    (Cursor.ofText text).lexed.unknown? = none ∧
      Splits (Cursor.ofText text).words (Cursor.ofText text).words [] e := by
  obtain ⟨ts, hts, hscans⟩ := h
  have hscan : Scans text.toList (ts ++ [.endOfText]) := by
    rw [← List.append_nil text.toList]
    exact hscans [] _ (fun _ hc => by cases hc) Scans.nil
  obtain ⟨hknown, htokens⟩ := hscan 0
  have hwords := (Cursor.ofText text).tokens_eq
  have hunknown : (Cursor.ofText text).lexed.unknown? = none := hknown
  have htokens' : (Cursor.ofText text).tokens = ts ++ [.endOfText] := htokens
  rw [hunknown, htokens'] at hwords
  rw [← List.append_cancel_right hwords]
  exact ⟨hunknown, splits_of_derives hts⟩

/-- A limit as large as the length of the text is never exceeded. -/
theorem parseWithin_eq_ok (h : Embeds .expression text.toList e) (hlimit : text.length ≤ limit) :
    Expr.parseWithin limit text = .ok e := by
  obtain ⟨hknown, hsplits⟩ := h.splits
  have hparse : Expr.parse limit text = .ok e := by
    rcases (Expr.parse_outcome limit text).1 with ⟨-, hlt⟩ | ⟨hiff, -⟩
    · omega
    · exact (hiff e).mpr ⟨hknown, _, _, hsplits⟩
  have hread := hparse
  rw [Expr.parse_eq_readTokens limit hknown] at hread
  have hheight := Expr.height_lt_of_readTokens_eq_ok hread
  have hlength := Expr.length_tokens_le text
  exact Expr.parseWithin_eq_ok_iff.mpr ⟨hparse, by omega⟩

end Embeds

end LaurentCalc
