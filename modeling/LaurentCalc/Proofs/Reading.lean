import LaurentCalc.Proofs.Grammar
import LaurentCalc.Proofs.Limit
import Mathlib.Data.List.Basic

/-!
# Reading step by step

An expression is read one token at a time, and what a token does depends only on what
stood before it. So the verdict on the beginning of a text is final once there is one,
whatever follows, and the verdict on all tokens of a text is the outcome of parsing it.
-/

namespace LaurentCalc

set_option autoImplicit false

/-- Where the reading of an expression stands: the phrases begun, the operand just read, and the
token just passed. -/
structure Reading where
  frames : List Frame
  operand? : Option Expr
  passed? : Option Token

inductive Reading.Step where
  | next (r : Reading)
  | finish (e : Expr)
  | fail (fault : Fault)

/-- What comes of reading some tokens: there is more to read, or the expression has ended before
the rest of them, or no expression begins like that. -/
inductive Verdict where
  | ongoing (r : Reading)
  | finished (e : Expr) (rest : List Token)
  | failed (fault : Fault)

namespace Reading

def start : Reading := ⟨[], none, none⟩

/-- The token just passed, if the given one may not follow it. -/
def clashing? (r : Reading) (token : Token) : Option Token :=
  r.passed?.filter fun last => last.kind.clashes token.kind

def step (limit : Nat) (r : Reading) (token : Token) : Step :=
  match r.clashing? token with
  | some last => .fail (.malformed (.missingOperator last.value token.value))
  | none =>
    match act .expression limit r.frames r.operand? token with
    | .shift frames operand? => .next ⟨frames, operand?, some token⟩
    | .finish e => .finish e
    | .reject => .fail (.malformed (.unexpected token.kind))
    | .unclosed => .fail (.malformed (.expected .rightParen token.kind))
    | .tooDeep => .fail .nestedTooDeeply

def run (limit : Nat) (r : Reading) : List Token → Verdict
  | [] => .ongoing r
  | token :: ahead =>
    match r.step limit token with
    | .next r' => r'.run limit ahead
    | .finish e => .finished e (token :: ahead)
    | .fail fault => .failed fault

end Reading

namespace Verdict

/-- The verdict once further tokens stand behind the ones that were read. -/
def extend (limit : Nat) (more : List Token) : Verdict → Verdict
  | .ongoing r => r.run limit more
  | .finished e rest => .finished e (rest ++ more)
  | .failed fault => .failed fault

/-- The outcome if the tokens end here, at an unknown character or without one. -/
def outcome (unknown? : Option UnknownCharacter) : Verdict → Except Fault Expr
  | .ongoing r =>
    match unknown? with
    | some unknown => .error (.unknownCharacter unknown)
    | none => .error (.malformed (.unexpected ((r.passed?.map Token.kind).getD .endOfText)))
  | .finished e _ => .ok e
  | .failed fault => .error fault

end Verdict

section

variable {limit limit' : Nat} {r r' : Reading} {frames : List Frame} {operand? : Option Expr}
variable {token : Token} {ts : List Token} {e : Expr} {fault : Fault}

theorem Reading.run_cons {v : Verdict} (h : r.run limit (token :: ts) = v) :
    (∃ r', r.step limit token = .next r' ∧ r'.run limit ts = v) ∨
      (∃ e, r.step limit token = .finish e ∧ v = .finished e (token :: ts)) ∨
      ∃ fault, r.step limit token = .fail fault ∧ v = .failed fault := by
  rw [run] at h
  cases hstep : r.step limit token with
  | next r' =>
    rw [hstep] at h
    exact Or.inl ⟨r', rfl, h⟩
  | finish e =>
    rw [hstep] at h
    exact Or.inr (Or.inl ⟨e, rfl, h.symm⟩)
  | fail fault =>
    rw [hstep] at h
    exact Or.inr (Or.inr ⟨fault, rfl, h.symm⟩)

theorem Reading.run_append (ts us : List Token) :
    r.run limit (ts ++ us) = (r.run limit ts).extend limit us := by
  induction ts generalizing r with
  | nil => rfl
  | cons token ts ih =>
    rw [List.cons_append, run, run]
    cases r.step limit token with
    | next r' => exact ih
    | finish e => rfl
    | fail fault => rfl

/-- A token that does not clash with the next one need not be remembered. -/
theorem Reading.run_passed {last next : Token} {ahead : List Token}
    (hclash : last.kind.clashes next.kind = false) :
    (Reading.mk frames operand? (some last)).run limit (next :: ahead) =
      (Reading.mk frames operand? none).run limit (next :: ahead) := by
  have hnone : (Reading.mk frames operand? (some last)).clashing? next = none := by
    simp [clashing?, hclash]
  simp only [run, step, hnone]
  rfl

theorem Reading.step_fresh (limit : Nat) (frames : List Frame) (operand? : Option Expr)
    (token : Token) :
    (Reading.mk frames operand? none).step limit token =
      match act .expression limit frames operand? token with
      | .shift frames operand? => .next ⟨frames, operand?, some token⟩
      | .finish e => .finish e
      | .reject => .fail (.malformed (.unexpected token.kind))
      | .unclosed => .fail (.malformed (.expected .rightParen token.kind))
      | .tooDeep => .fail .nestedTooDeeply := rfl

theorem Reading.passes_run (limit : Nat) :
    Passes limit fun frames operand? ts => (Reading.mk frames operand? none).run limit ts := by
  intro frames frames' operand? operand?' token next ahead hact hclash
  show Reading.run limit _ (token :: next :: ahead) = Reading.run limit _ (next :: ahead)
  rw [run, step_fresh, hact]
  exact run_passed hclash

/-- What a parser reads on to is the verdict on its tokens. -/
theorem Reading.outcome_readFrom (unknown? : Option UnknownCharacter) (current : Token)
    (position : Nat) (pending : List Lexeme) :
    (Parser.readFrom .expression limit unknown? frames operand? current position pending).1 =
      ((Reading.mk frames operand? none).run limit
        (current :: pending.map Lexeme.token)).outcome unknown? := by
  induction pending generalizing frames operand? current position with
  | nil =>
    rw [Parser.readFrom, List.map_nil, run, step_fresh]
    cases act .expression limit frames operand? current with
    | shift => cases unknown? <;> rfl
    | finish | reject | unclosed | tooDeep => rfl
  | cons next pending ih =>
    rw [Parser.readFrom, List.map_cons, run, step_fresh]
    cases act .expression limit frames operand? current with
    | shift frames operand? =>
      by_cases hclash : current.kind.clashes next.token.kind
      · have hfound : (Reading.mk frames operand? (some current)).clashing? next.token =
            some current := Option.filter_eq_some_iff.mpr ⟨rfl, hclash⟩
        simp only [Parser.pass, hclash, if_true, run, step, hfound, Verdict.outcome]
      · have hpassed := @ih frames operand? next.token next.stop
        rw [← run_passed (Bool.eq_false_iff.mpr hclash)] at hpassed
        simp only [Parser.pass, hclash, Bool.false_eq_true, if_false]
        exact hpassed
    | finish | reject | unclosed | tooDeep => rfl

/-- The end of the text never belongs to a phrase. -/
theorem act_endOfText (limit : Nat) (frames : List Frame) (operand? : Option Expr) :
    act .expression limit frames operand? .endOfText = .reject ∨
      act .expression limit frames operand? .endOfText = .unclosed ∨
        ∃ e, act .expression limit frames operand? .endOfText = .finish e := by
  cases operand? with
  | none => exact Or.inl rfl
  | some e =>
    right
    simp only [act, afterOperand, Token.endOfText, BinaryOp.ofToken?]
    split
    · exact Or.inr ⟨_, rfl⟩
    · exact Or.inl (if_neg (by decide))

theorem Reading.step_endOfText (limit : Nat) (r : Reading) :
    (∃ e, r.step limit .endOfText = .finish e) ∨
      ∃ f, r.step limit .endOfText = .fail (.malformed f) := by
  rw [step]
  split
  · exact Or.inr ⟨_, rfl⟩
  · rcases act_endOfText limit r.frames r.operand? with hact | hact | ⟨e, hact⟩
    · rw [hact]
      exact Or.inr ⟨_, rfl⟩
    · rw [hact]
      exact Or.inr ⟨_, rfl⟩
    · rw [hact]
      exact Or.inl ⟨e, rfl⟩

theorem Reading.fault_of_step_eq_fail (h : r.step limit token = .fail fault) :
    (∃ f, fault = .malformed f) ∨ fault = .nestedTooDeeply := by
  unfold step at h
  split at h
  · cases h
    exact Or.inl ⟨_, rfl⟩
  · split at h <;> cases h
    · exact Or.inl ⟨_, rfl⟩
    · exact Or.inl ⟨_, rfl⟩
    · exact Or.inr rfl

theorem Reading.fault_of_run_eq_failed (h : r.run limit ts = .failed fault) :
    (∃ f, fault = .malformed f) ∨ fault = .nestedTooDeeply := by
  induction ts generalizing r with
  | nil => cases h
  | cons token ahead ih =>
    rcases run_cons h with ⟨r', -, h⟩ | ⟨e, -, h⟩ | ⟨fault', hstep, h⟩
    · exact ih h
    · cases h
    · cases h
      exact fault_of_step_eq_fail hstep

theorem length_of_opening_eq_tooDeep {frame : Frame} {opened : List Frame}
    (h : Action.opening limit frame opened = .tooDeep) : limit ≤ opened.length := by
  unfold Action.opening at h
  split at h
  · cases h
  · omega

theorem length_of_act_eq_tooDeep (h : act .expression limit frames operand? token = .tooDeep) :
    limit ≤ frames.length := by
  cases operand? with
  | none =>
    simp only [act, beginOperand] at h
    split at h
    · cases h
    · cases h
    · exact length_of_opening_eq_tooDeep h
    · exact length_of_opening_eq_tooDeep h
    · exact length_of_opening_eq_tooDeep h
    · cases h
  | some e =>
    simp only [act, afterOperand] at h
    split at h
    · next op hop =>
      have hlength := length_settle_le op.leftLevel frames e
      split at h
      · split at h
        · exact Nat.le_trans (length_of_opening_eq_tooDeep h) (Nat.zero_le _)
        · cases h
      · next hsettle =>
        rw [hsettle] at hlength
        exact Nat.le_trans (length_of_opening_eq_tooDeep h) hlength
    · split at h
      · cases h
      · split at h <;> cases h

theorem Reading.act_of_step_eq_next (h : r.step limit token = .next r') :
    r.clashing? token = none ∧
      act .expression limit r.frames r.operand? token = .shift r'.frames r'.operand? ∧
      r'.passed? = some token := by
  unfold step at h
  split at h
  · cases h
  · next hclash =>
    split at h
    · next hact =>
      cases h
      exact ⟨hclash, hact, rfl⟩
    all_goals cases h

theorem Reading.act_of_step_eq_finish (h : r.step limit token = .finish e) :
    r.clashing? token = none ∧
      act .expression limit r.frames r.operand? token = .finish e := by
  unfold step at h
  split at h
  · cases h
  · next hclash =>
    split at h
    case h_2 hact =>
      cases h
      exact ⟨hclash, hact⟩
    all_goals cases h

theorem Reading.act_of_step_eq_nestedTooDeeply (h : r.step limit token = .fail .nestedTooDeeply) :
    act .expression limit r.frames r.operand? token = .tooDeep := by
  unfold step at h
  split at h
  · cases h
  · split at h
    case h_5 hact => exact hact
    all_goals cases h

theorem Reading.length_frames_le (h : r.step limit token = .next r') :
    r'.frames.length ≤ r.frames.length + 1 :=
  (bounds_of_act_eq_shift (act_of_step_eq_next h).2.1).1

/-- Only more tokens than the limit can be nested too deeply. -/
theorem Reading.limit_lt_of_run (h : r.run limit ts = .failed .nestedTooDeeply) :
    limit < r.frames.length + ts.length := by
  induction ts generalizing r with
  | nil => cases h
  | cons token ahead ih =>
    rw [List.length_cons]
    rcases run_cons h with ⟨r', hstep, h⟩ | ⟨e, -, h⟩ | ⟨fault, hstep, h⟩
    · have hahead := ih h
      have hframes := length_frames_le hstep
      omega
    · cases h
    · cases h
      have hframes := length_of_act_eq_tooDeep (act_of_step_eq_nestedTooDeeply hstep)
      omega

theorem Reading.step_limit (limit' : Nat) (h : r.step limit token ≠ .fail .nestedTooDeeply) :
    r.step limit' token = r.step limit token ∨ r.step limit' token = .fail .nestedTooDeeply := by
  unfold step at h ⊢
  split
  · exact Or.inl rfl
  · next hclash =>
    rw [hclash] at h
    simp only at h
    have hact : act .expression limit r.frames r.operand? token ≠ .tooDeep := by
      intro hdeep
      rw [hdeep] at h
      exact h rfl
    rcases act_limit limit' hact with hsame | ⟨hdeep, -, -⟩
    · rw [hsame]
      exact Or.inl rfl
    · rw [hdeep]
      exact Or.inr rfl

/-- A verdict within one limit is the verdict within another, or goes beyond that one. -/
theorem Reading.run_limit (limit' : Nat) (h : r.run limit ts ≠ .failed .nestedTooDeeply) :
    r.run limit' ts = r.run limit ts ∨ r.run limit' ts = .failed .nestedTooDeeply := by
  induction ts generalizing r with
  | nil => exact Or.inl rfl
  | cons token ahead ih =>
    have hstep : r.step limit token ≠ .fail .nestedTooDeeply := by
      intro hdeep
      rw [run, hdeep] at h
      exact h rfl
    rcases step_limit limit' hstep with hsame | hdeep
    · rw [run, hsame, run]
      rw [run] at h
      cases hnext : r.step limit token with
      | next r' =>
        rw [hnext] at h
        exact ih h
      | finish e => exact Or.inl rfl
      | fail fault => exact Or.inl rfl
    · rw [run, hdeep]
      exact Or.inr rfl

/-- What a limit as large as the number of tokens decides is what every limit decides that is not
exceeded. -/
theorem Reading.run_of_length_le {limit' : Nat} (hlimit' : ts.length ≤ limit')
    (h : start.run limit ts ≠ .failed .nestedTooDeeply) :
    start.run limit' ts = start.run limit ts := by
  rcases run_limit limit' h with hsame | hdeep
  · exact hsame
  · have hlt := limit_lt_of_run hdeep
    rw [start, List.length_nil] at hlt
    omega

/-- A text is parsed by the verdict on its tokens; an expression counts only if no unknown
character follows anywhere. -/
theorem Expr.parse_eq_run (limit : Nat) (text : String) :
    parse limit text =
      (Reading.start.run limit (Cursor.ofText text).tokens).outcome
        (Cursor.ofText text).lexed.unknown? >>= fun e =>
          match (Cursor.ofText text).lexed.unknown? with
          | some unknown => .error (.unknownCharacter unknown)
          | none => .ok e := by
  simp only [parse, Parser.ofText, Cursor.tokens]
  cases (Cursor.ofText text).lexed.lexemes with
  | nil => cases (Cursor.ofText text).lexed.unknown? <;> rfl
  | cons first pending =>
    rw [List.map_cons, Reading.start, ← Reading.outcome_readFrom, ok_bind, Parser.outcome_readAll]
    rfl

end

end LaurentCalc
