import LaurentCalc.Proofs.Grammar
import LaurentCalc.Proofs.Written

/-!
# Writing phrases

Which characters may be put down for an expression so that it is read back. Numbers,
names, signs and operators are put down one after the other, the operators with or
without blanks around them.
-/

namespace LaurentCalc

set_option autoImplicit false

/-- Neither a number nor a name goes on with the characters. -/
def Stops (cs : List Char) : Prop :=
  ∀ c ∈ cs.head?, Text.isDigit c = false ∧ Text.isLetter c = false

/-- The characters are scanned to tokens that make up the expression as a phrase of the given
level, without parentheses and whatever follows them. -/
def Writes (level : Level) (cs : List Char) (e : Expr) : Prop :=
  ∃ ts, Derives level ts e ∧ groups ts = 0 ∧
    ∀ rest us, Stops rest → Scans rest us → Scans (cs ++ rest) (ts ++ us)

theorem stops_symbol {c : Char} {kind : TokenKind} (hc : TokenKind.ofSymbol? c = some kind)
    (cs : List Char) : Stops (c :: cs) := by
  rintro _ ⟨⟩
  exact (Text.symbols_apart c (TokenKind.mem_of_ofSymbol? hc).1).2

theorem stops_space (cs : List Char) : Stops (' ' :: cs) := by
  rintro _ ⟨⟩
  decide

namespace Writes

variable {level level' : Level} {cs ds : List Char} {e l r : Expr} {c : Char} {kind : TokenKind}

theorem widen (hle : level.rank ≤ level'.rank) (h : Writes level cs e) : Writes level' cs e := by
  obtain ⟨ts, hts, hgroups, hscans⟩ := h
  exact ⟨ts, hts.widen hle, hgroups, hscans⟩

theorem integer (n : Nat) : Writes .atom n.repr.toList (.number n) :=
  ⟨_, .integer n, rfl, fun _ _ hstops hrest => hrest.integer n fun c hc => (hstops c hc).1⟩

theorem name {x : String} (hx : Spelled x) : Writes .atom x.toList (.term (.named x)) :=
  ⟨_, .name x, rfl, fun _ _ hstops hrest => hrest.name hx.1 hx.2 fun c hc => (hstops c hc).2⟩

theorem sign (s : Sign) (hc : TokenKind.ofSymbol? c = some s.kind) (h : Writes .factor cs e) :
    Writes .factor (c :: cs) (.unary (.sign s) e) := by
  obtain ⟨ts, hts, hgroups, hscans⟩ := h
  have hnone : groups (.symbol s.kind c :: ts) = 0 := by rwa [groups_cons s.kind_ne_leftParen]
  refine ⟨.symbol s.kind c :: ts, hts.sign rfl, hnone, fun rest us hstops hrest => ?_⟩
  exact (hscans rest us hstops hrest).symbol hc

theorem groups_binary {op : BinaryOp} {ts us : List Token} (hop : BinaryOp.ofToken? kind = some op)
    (hts : groups ts = 0) (hus : groups us = 0) : groups (ts ++ .symbol kind c :: us) = 0 := by
  rw [groups_append, groups_cons (BinaryOp.ne_leftParen_of_ofToken? hop), hts, hus]

theorem binary (op : BinaryOp) (hc : TokenKind.ofSymbol? c = some kind)
    (hop : BinaryOp.ofToken? kind = some op) (hl : Writes op.leftLevel cs l)
    (hr : Writes op.rightLevel ds r) : Writes op.level (cs ++ c :: ds) (.binary op l r) := by
  obtain ⟨ts, hts, hgroups, hscansLeft⟩ := hl
  obtain ⟨us, hus, hgroups', hscansRight⟩ := hr
  refine ⟨ts ++ .symbol kind c :: us, .binary hop hts hus, groups_binary hop hgroups hgroups',
    fun rest vs hstops hrest => ?_⟩
  rw [List.append_assoc, List.append_assoc]
  exact hscansLeft _ _ (stops_symbol hc _) ((hscansRight rest vs hstops hrest).symbol hc)

/-- An operator between two blanks. -/
theorem binary_spaced (op : BinaryOp) (hc : TokenKind.ofSymbol? c = some kind)
    (hop : BinaryOp.ofToken? kind = some op) (hl : Writes op.leftLevel cs l)
    (hr : Writes op.rightLevel ds r) :
    Writes op.level (cs ++ ' ' :: c :: ' ' :: ds) (.binary op l r) := by
  obtain ⟨ts, hts, hgroups, hscansLeft⟩ := hl
  obtain ⟨us, hus, hgroups', hscansRight⟩ := hr
  refine ⟨ts ++ .symbol kind c :: us, .binary hop hts hus, groups_binary hop hgroups hgroups',
    fun rest vs hstops hrest => ?_⟩
  rw [List.append_assoc, List.append_assoc]
  have hblank : Text.isBlank ' ' = true := by decide
  exact hscansLeft _ _ (stops_space _)
    ((((hscansRight rest vs hstops hrest).blank hblank).symbol hc).blank hblank)

variable {text : String} {limit : Nat}

/-- What is put down for an expression is scanned to the tokens that make it up. -/
theorem tokens_eq (h : Writes .expression text.toList e) :
    (Cursor.ofText text).lexed.unknown? = none ∧
      ∃ ts, Derives .expression ts e ∧ groups ts = 0 ∧
        (Cursor.ofText text).tokens = ts ++ [.endOfText] := by
  obtain ⟨ts, hts, hgroups, hscans⟩ := h
  have hscan : Scans text.toList (ts ++ [.endOfText]) := by
    rw [← List.append_nil text.toList]
    exact hscans [] _ (fun _ hc => by cases hc) Scans.nil
  obtain ⟨hunknown, htokens⟩ := hscan 0
  exact ⟨hunknown, ts, hts, hgroups, htokens⟩

/-- What is put down for an expression is read back, unless the limit is less than its nesting. -/
theorem parse_eq_ok (h : Writes .expression text.toList e) (hlimit : e.nesting ≤ limit) :
    Expr.parse limit text = .ok e := by
  obtain ⟨hunknown, ts, hts, hgroups, htokens⟩ := h.tokens_eq
  rw [Expr.parse_eq_readTokens limit hunknown, htokens]
  exact hts.readTokens_eq_ok rfl (fun last _ => by cases last.kind <;> rfl) (by omega)

/-- A limit as large as the length of the text is never exceeded. -/
theorem parseWithin_eq_ok (h : Writes .expression text.toList e) (hlimit : text.length ≤ limit) :
    Expr.parseWithin limit text = .ok e := by
  obtain ⟨hunknown, ts, hts, -, htokens⟩ := h.tokens_eq
  have hlength := Expr.length_tokens_le text
  have hnesting := hts.groups_add_nesting_le
  rw [htokens, List.length_append, List.length_singleton] at hlength
  have hparse := h.parse_eq_ok (show e.nesting ≤ limit by omega)
  have hread := hparse
  rw [Expr.parse_eq_readTokens limit hunknown] at hread
  have hheight := Expr.height_lt_of_readTokens_eq_ok hread
  rw [htokens, List.length_append, List.length_singleton] at hheight
  exact Expr.parseWithin_eq_ok_iff.mpr ⟨hparse, by omega⟩

end Writes

end LaurentCalc
