import LaurentCalc.Parser

/-!
# Reading tokens

Whether a text is read as a phrase depends on its tokens alone, not on where they
stand. The limit on open phrases decides only whether the reading is given up, and a
limit as large as the number of tokens is no limit.
-/

namespace LaurentCalc

set_option autoImplicit false

/-- Reads on to the end of a phrase as a parser does, over tokens without their places. -/
def readTokens (goal : Level) (limit : Nat) :
    List Frame → Option Expr → List Token → Except Fault Expr
  | _, _, [] => .error (.malformed (.unexpected .endOfText))
  | frames, operand?, current :: ahead =>
    match act goal limit frames operand? current with
    | .finish e => .ok e
    | .reject => .error (.malformed (.unexpected current.kind))
    | .unclosed => .error (.malformed (.expected .rightParen current.kind))
    | .tooDeep => .error .nestedTooDeeply
    | .shift frames operand? =>
      match ahead with
      | [] => .error (.malformed (.unexpected current.kind))
      | next :: _ =>
        if current.kind.clashes next.kind then
          .error (.malformed (.missingOperator current.value next.value))
        else readTokens goal limit frames operand? ahead

section

variable {goal : Level} {limit : Nat} {frames frames' : List Frame}
  {operand? operand?' : Option Expr}
variable {token : Token}

theorem outcome_readFrom (current : Token) (position : Nat) (pending : List Lexeme) :
    (Parser.readFrom goal limit none frames operand? current position pending).1 =
      readTokens goal limit frames operand? (current :: pending.map Lexeme.token) := by
  induction pending generalizing frames operand? current position with
  | nil =>
    unfold Parser.readFrom readTokens
    cases act goal limit frames operand? current <;> rfl
  | cons next pending ih =>
    unfold Parser.readFrom readTokens
    cases act goal limit frames operand? current with
    | shift frames operand? =>
      by_cases hclash : current.kind.clashes next.token.kind
      · simp [Parser.pass, hclash]
      · simp only [Parser.pass, hclash, Bool.false_eq_true, if_false, List.map_cons]
        exact ih next.token next.stop
    | finish => rfl
    | reject => rfl
    | unclosed => rfl
    | tooDeep => rfl

theorem readTokens_finish {ahead : List Token} {e : Expr}
    (h : act goal limit frames operand? token = .finish e) :
    readTokens goal limit frames operand? (token :: ahead) = .ok e := by
  rw [readTokens, h]

theorem readTokens_shift {next : Token} {ahead : List Token}
    (h : act goal limit frames operand? token = .shift frames' operand?')
    (hclash : token.kind.clashes next.kind = false) :
    readTokens goal limit frames operand? (token :: next :: ahead) =
      readTokens goal limit frames' operand?' (next :: ahead) := by
  rw [readTokens, h]
  simp only [hclash, Bool.false_eq_true, if_false]

/-- A reading that succeeds either ends at its first token or passes it. -/
theorem readTokens_eq_ok {tokens : List Token} {e : Expr}
    (h : readTokens goal limit frames operand? tokens = .ok e) :
    ∃ token ahead, tokens = token :: ahead ∧
      (act goal limit frames operand? token = .finish e ∨
        ∃ frames' operand?' next more, ahead = next :: more ∧
          act goal limit frames operand? token = .shift frames' operand?' ∧
          token.kind.clashes next.kind = false ∧
          readTokens goal limit frames' operand?' ahead = .ok e) := by
  cases tokens with
  | nil => cases h
  | cons token ahead =>
    refine ⟨token, ahead, rfl, ?_⟩
    rw [readTokens] at h
    cases hact : act goal limit frames operand? token with
    | finish e' =>
      rw [hact] at h
      exact Or.inl (congrArg Action.finish (Except.ok.inj h))
    | shift frames' operand?' =>
      simp only [hact] at h
      cases ahead with
      | nil => cases h
      | cons next more =>
        simp only at h
        split at h
        · cases h
        · next hclash =>
          exact Or.inr ⟨frames', operand?', next, more, rfl, rfl, Bool.eq_false_iff.mpr hclash, h⟩
    | reject => simp [hact] at h
    | unclosed => simp [hact] at h
    | tooDeep => simp [hact] at h

def Frame.weight : Frame → Nat
  | .sign _ => 1
  | .operator _ left => left.size + 1
  | .group => 0

/-- The number of nodes in the phrases begun so far. -/
def load (frames : List Frame) (operand? : Option Expr) : Nat :=
  frames.foldr (fun frame n => frame.weight + n) 0 + (operand?.map Expr.size).getD 0

theorem length_settle_le (level : Level) (frames : List Frame) (e : Expr) :
    (settle level frames e).1.length ≤ frames.length := by
  induction frames generalizing e with
  | nil => exact Nat.le_refl 0
  | cons frame frames ih =>
    unfold settle
    split
    · exact Nat.le_succ_of_le (ih (frame.complete e))
    · exact Nat.le_refl _

theorem load_settle (level : Level) (frames : List Frame) (e : Expr) :
    load (settle level frames e).1 (some (settle level frames e).2) = load frames (some e) := by
  induction frames generalizing e with
  | nil => rfl
  | cons frame frames ih =>
    unfold settle
    split
    · rw [ih (frame.complete e)]
      cases frame <;> simp [load, Frame.complete, Frame.weight, Expr.size] <;> omega
    · rfl

theorem opening_eq_shift {frame : Frame}
    (h : Action.opening limit frame frames = .shift frames' operand?) :
    frames' = frame :: frames ∧ operand? = none := by
  unfold Action.opening at h
  split at h
  · cases h
    exact ⟨rfl, rfl⟩
  · cases h

/-- What a token does that belongs to the phrase: the frames and the operand behind it. -/
inductive Shifts (frames : List Frame) :
    Token → Option Expr → List Frame → Option Expr → Prop where
  | integer (n : Int) : Shifts frames ⟨.integer, .number n⟩ none frames (some (.number n))
  | identifier (x : String) :
      Shifts frames ⟨.identifier, .text x⟩ none frames (some (.term (.named x)))
  | plus {token : Token} (hkind : token.kind = .plus) :
      Shifts frames token none (.sign .plus :: frames) none
  | minus {token : Token} (hkind : token.kind = .minus) :
      Shifts frames token none (.sign .minus :: frames) none
  | group {token : Token} (hkind : token.kind = .leftParen) :
      Shifts frames token none (.group :: frames) none
  | operator {token : Token} {op : BinaryOp} {e left : Expr} {opened : List Frame}
      (hop : BinaryOp.ofToken? token.kind = some op)
      (hsettle : settle op.leftLevel frames e = (opened, left)) :
      Shifts frames token (some e) (.operator op left :: opened) none
  | close {token : Token} {e inner : Expr} {frame : Frame} {opened : List Frame}
      (hkind : token.kind = .rightParen)
      (hsettle : settle .expression frames e = (frame :: opened, inner)) :
      Shifts frames token (some e) opened (some inner)

theorem shifts_of_beginOperand (h : beginOperand limit frames token = .shift frames' operand?') :
    Shifts frames token none frames' operand?' := by
  unfold beginOperand at h
  split at h
  · cases h
    exact .integer _
  · cases h
    exact .identifier _
  · obtain ⟨rfl, rfl⟩ := opening_eq_shift h
    exact .plus rfl
  · obtain ⟨rfl, rfl⟩ := opening_eq_shift h
    exact .minus rfl
  · obtain ⟨rfl, rfl⟩ := opening_eq_shift h
    exact .group rfl
  · cases h

theorem shifts_of_afterOperand {e : Expr}
    (h : afterOperand goal limit frames e token = .shift frames' operand?') :
    Shifts frames token (some e) frames' operand?' := by
  unfold afterOperand at h
  split at h
  · next op hop =>
    split at h
    · next left hsettle =>
      split at h
      · obtain ⟨rfl, rfl⟩ := opening_eq_shift h
        exact .operator hop hsettle
      · cases h
    · next opened left _ hsettle =>
      obtain ⟨rfl, rfl⟩ := opening_eq_shift h
      exact .operator hop hsettle
  · split at h
    · cases h
    · next frame opened inner hsettle =>
      split at h
      · next hkind =>
        cases h
        exact .close hkind hsettle
      · cases h

theorem shifts_of_act (h : act goal limit frames operand? token = .shift frames' operand?') :
    Shifts frames token operand? frames' operand?' := by
  cases operand? with
  | none => exact shifts_of_beginOperand h
  | some e => exact shifts_of_afterOperand h

/-- A token opens at most one phrase and contributes at most one node. -/
theorem bounds_of_act_eq_shift
    (h : act goal limit frames operand? token = .shift frames' operand?') :
    frames'.length ≤ frames.length + 1 ∧ load frames' operand?' ≤ load frames operand? + 1 := by
  cases shifts_of_act h with
  | integer n => simp [load, Expr.size]
  | identifier x => simp [load, Expr.size]
  | plus hkind =>
    simp [load, Frame.weight]
    omega
  | minus hkind =>
    simp [load, Frame.weight]
    omega
  | group hkind => simp [load, Frame.weight]
  | @operator _ op e left opened hop hsettle =>
    have hlength := length_settle_le op.leftLevel frames e
    have hload := load_settle op.leftLevel frames e
    rw [hsettle] at hlength hload
    simp only [load, List.foldr_cons, Frame.weight, Option.map_some, Option.map_none,
      Option.getD_some, Option.getD_none, List.length_cons] at hload hlength ⊢
    omega
  | @close _ e inner frame opened hkind hsettle =>
    have hlength := length_settle_le .expression frames e
    have hload := load_settle .expression frames e
    rw [hsettle] at hlength hload
    simp only [load, List.foldr_cons, Option.map_some, Option.getD_some,
      List.length_cons] at hload hlength ⊢
    omega

theorem opening_ne_finish {frame : Frame} (e : Expr) :
    Action.opening limit frame frames ≠ .finish e := by
  intro h
  unfold Action.opening at h
  split at h <;> cases h

/-- How a token ends a phrase before it: no frame is left open, and the token is an operator for a
wider phrase or none at all. -/
inductive Finishes (goal : Level) (frames : List Frame) (operand : Expr) (e : Expr) :
    Token → Prop where
  | operator {token : Token} {op : BinaryOp} (hop : BinaryOp.ofToken? token.kind = some op)
      (hrank : ¬op.level.rank ≤ goal.rank)
      (hsettle : settle op.leftLevel frames operand = ([], e)) :
      Finishes goal frames operand e token
  | other {token : Token} (hnone : BinaryOp.ofToken? token.kind = none)
      (hsettle : settle .expression frames operand = ([], e)) :
      Finishes goal frames operand e token

theorem finishes_of_act {e : Expr} (h : act goal limit frames operand? token = .finish e) :
    ∃ operand, operand? = some operand ∧ Finishes goal frames operand e token := by
  cases operand? with
  | none =>
    simp only [act, beginOperand] at h
    split at h
    · cases h
    · cases h
    · exact absurd h (opening_ne_finish e)
    · exact absurd h (opening_ne_finish e)
    · exact absurd h (opening_ne_finish e)
    · cases h
  | some operand =>
    refine ⟨operand, rfl, ?_⟩
    simp only [act, afterOperand] at h
    split at h
    · next op hop =>
      split at h
      · next left hsettle =>
        split at h
        · exact absurd h (opening_ne_finish e)
        · next hrank =>
          cases h
          exact .operator hop hrank hsettle
      · exact absurd h (opening_ne_finish e)
    · next hnone =>
      split at h
      · next whole hsettle =>
        cases h
        exact .other hnone hsettle
      · split at h <;> cases h

/-- A phrase is finished only when all its frames end with its last operand. -/
theorem settle_of_act_eq_finish {e : Expr} (h : act goal limit frames operand? token = .finish e) :
    ∃ operand level, operand? = some operand ∧ settle level frames operand = ([], e) := by
  obtain ⟨operand, hoperand, hfinishes⟩ := finishes_of_act h
  cases hfinishes with
  | operator hop hrank hsettle => exact ⟨operand, _, hoperand, hsettle⟩
  | other hnone hsettle => exact ⟨operand, _, hoperand, hsettle⟩

theorem size_of_act_eq_finish {e : Expr} (h : act goal limit frames operand? token = .finish e) :
    e.size = load frames operand? := by
  obtain ⟨operand, level, rfl, hsettle⟩ := settle_of_act_eq_finish h
  have hload := load_settle level frames operand
  rw [← hload, hsettle]
  simp [load]

theorem size_lt_of_readTokens_eq_ok {tokens : List Token} {e : Expr}
    (h : readTokens goal limit frames operand? tokens = .ok e) :
    e.size < load frames operand? + tokens.length := by
  induction tokens generalizing frames operand? with
  | nil => cases h
  | cons current ahead ih =>
    obtain ⟨_, _, heq, hact⟩ := readTokens_eq_ok h
    cases heq
    rcases hact with hfinish | ⟨frames', operand?', next, more, rfl, hshift, _, hmore⟩
    · rw [size_of_act_eq_finish hfinish, List.length_cons]
      omega
    · have hsize := ih hmore
      have hbound := (bounds_of_act_eq_shift hshift).2
      simp only [List.length_cons] at hsize ⊢
      omega

theorem opening_limit (limit' : Nat) {frame : Frame} {opened : List Frame}
    (hle : opened.length ≤ frames.length) (h : Action.opening limit frame opened ≠ .tooDeep) :
    Action.opening limit' frame opened = Action.opening limit frame opened ∨
      Action.opening limit' frame opened = .tooDeep ∧ limit' ≤ frames.length ∧ limit' < limit ∧
        ∃ frames' operand?', Action.opening limit frame opened = .shift frames' operand?' := by
  by_cases hlt : opened.length < limit
  · by_cases hlt' : opened.length < limit'
    · left
      rw [Action.opening, Action.opening, if_pos hlt, if_pos hlt']
    · right
      rw [Action.opening, Action.opening, if_pos hlt, if_neg hlt']
      exact ⟨rfl, by omega, by omega, _, _, rfl⟩
  · rw [Action.opening, if_neg hlt] at h
    exact absurd rfl h

/-- Another limit only matters where a phrase is opened. -/
theorem act_limit (limit' : Nat) (h : act goal limit frames operand? token ≠ .tooDeep) :
    act goal limit' frames operand? token = act goal limit frames operand? token ∨
      act goal limit' frames operand? token = .tooDeep ∧ limit' ≤ frames.length ∧ limit' < limit ∧
        ∃ frames' operand?', act goal limit frames operand? token = .shift frames' operand?' := by
  cases operand? with
  | none =>
    simp only [act, beginOperand] at h ⊢
    split at h
    · exact Or.inl rfl
    · exact Or.inl rfl
    · exact opening_limit limit' (Nat.le_refl _) h
    · exact opening_limit limit' (Nat.le_refl _) h
    · exact opening_limit limit' (Nat.le_refl _) h
    · exact Or.inl rfl
  | some e =>
    simp only [act, afterOperand] at h ⊢
    split at h
    · next op hop =>
      have hlength := length_settle_le op.leftLevel frames e
      split at h
      · by_cases hrank : op.level.rank ≤ goal.rank
        · rw [if_pos hrank] at h ⊢
          rw [if_pos hrank]
          exact opening_limit limit' (Nat.zero_le _) h
        · rw [if_neg hrank, if_neg hrank]
          exact Or.inl rfl
      · next hsettle =>
        rw [hsettle] at hlength
        exact opening_limit limit' hlength h
    · exact Or.inl rfl

/-- What is read at one limit is read at any other, or given up there because that limit is lower
and less than the number of tokens ahead. -/
theorem readTokens_limit (limit' : Nat) {tokens : List Token} {e : Expr}
    (h : readTokens goal limit frames operand? tokens = .ok e) :
    readTokens goal limit' frames operand? tokens = .ok e ∨
      readTokens goal limit' frames operand? tokens = .error .nestedTooDeeply ∧
        limit' + 1 < frames.length + tokens.length ∧ limit' < limit := by
  induction tokens generalizing frames operand? with
  | nil => cases h
  | cons current ahead ih =>
    obtain ⟨_, _, heq, hact⟩ := readTokens_eq_ok h
    cases heq
    rcases hact with hfinish | ⟨frames', operand?', next, more, rfl, hshift, hclash, hmore⟩
    · have hne : act goal limit frames operand? current ≠ .tooDeep := by
        rw [hfinish]
        exact Action.noConfusion
      rcases act_limit limit' hne with hsame | ⟨_, _, _, _, _, hshift⟩
      · exact Or.inl (readTokens_finish (hsame.trans hfinish))
      · rw [hfinish] at hshift
        cases hshift
    · have hne : act goal limit frames operand? current ≠ .tooDeep := by
        rw [hshift]
        exact Action.noConfusion
      rcases act_limit limit' hne with hsame | ⟨hdeep, hle, hlower, _⟩
      · have hlength := (bounds_of_act_eq_shift hshift).1
        rw [readTokens_shift (hsame.trans hshift) hclash]
        refine (ih hmore).imp_right ?_
        rintro ⟨hdeep, hlt, hlower⟩
        simp only [List.length_cons] at hlt ⊢
        exact ⟨hdeep, by omega, hlower⟩
      · right
        rw [readTokens, hdeep]
        simp only [List.length_cons]
        exact ⟨trivial, by omega, hlower⟩

end

end LaurentCalc
