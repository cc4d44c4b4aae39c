import LaurentCalc.Proofs.Reach
import LaurentCalc.Proofs.TokenReading

/-!
# Evaluation within a limit

The tree of a text comes from the tokens of the text. Limits do not change results:
what evaluates to a result at one limit does so at every other limit, or exceeds it,
and no text exceeds a limit as large as itself. A tree that can be printed exceeds no
limit; one that is higher is always too high for a traced evaluation, but without
tracing only if the way through it gets that far.
-/

namespace LaurentCalc

set_option autoImplicit false

namespace Cursor

/-- The tokens ahead, the end of the text included if it is reached. -/
def tokens (c : Cursor) : List Token := c.lexed.lexemes.map Lexeme.token

/-- One step of scanning. -/
theorem lexed_eq (c : Cursor) :
    c.lexed =
      match c.next with
      | (.error unknown, _) => ⟨[], some unknown⟩
      | (.ok token, after) =>
        let lexeme : Lexeme := ⟨token, c.skipBlanks.position, after.position⟩
        if token.kind = .endOfText then ⟨[lexeme], none⟩
        else ⟨lexeme :: after.lexed.lexemes, after.lexed.unknown?⟩ := by
  rw [lexed]
  split
  · next h => rw [h]
  · next h =>
    rw [h]
    split
    · next hkind => exact (if_pos hkind).symm
    · next hkind => exact (if_neg hkind).symm

/-- Induction along scanning: ahead of a cursor is an unknown character, or the end of the text, or
a token with whatever is ahead behind it. -/
theorem lexedInduction {motive : Cursor → Prop}
    (unknown : ∀ c first after, c.next = (.error first, after) → c.lexed = ⟨[], some first⟩ →
      motive c)
    (endOfText : ∀ c token after, c.next = (.ok token, after) → token.kind = .endOfText →
      c.lexed = ⟨[⟨token, c.skipBlanks.position, after.position⟩], none⟩ → motive c)
    (token : ∀ c token after, c.next = (.ok token, after) → token.kind ≠ .endOfText →
      c.lexed = ⟨⟨token, c.skipBlanks.position, after.position⟩ :: after.lexed.lexemes,
        after.lexed.unknown?⟩ → motive after → motive c)
    (c : Cursor) : motive c := by
  induction c using Cursor.lexed.induct with
  | case1 c first after h =>
    apply unknown c first after h
    rw [lexed_eq, h]
  | case2 c word after h hkind =>
    apply endOfText c word after h hkind
    rw [lexed_eq, h]
    exact if_pos hkind
  | case3 c word after h hkind ih =>
    refine token c word after h hkind ?_ ih
    rw [lexed_eq, h]
    exact if_neg hkind

theorem length_lexemes_le (c : Cursor) : c.lexed.lexemes.length ≤ c.rest.length + 1 := by
  induction c using lexedInduction with
  | unknown c first after h hlexed =>
    rw [hlexed]
    exact Nat.zero_le _
  | endOfText c token after h hkind hlexed =>
    rw [hlexed]
    exact Nat.le_add_left 1 _
  | token c token after h hkind hlexed ih =>
    have hlt := length_next_lt h hkind
    rw [hlexed, List.length_cons]
    omega

end Cursor

namespace Parser

theorem unknown_readFrom (goal : Level) (limit : Nat) (unknown? : Option UnknownCharacter)
    (frames : List Frame) (operand? : Option Expr) (current : Token) (position : Nat)
    (pending : List Lexeme) :
    (readFrom goal limit unknown? frames operand? current position pending).2.unknown? =
      unknown? := by
  induction pending generalizing frames operand? current position with
  | nil =>
    unfold readFrom
    cases act goal limit frames operand? current with
    | shift => cases unknown? <;> rfl
    | _ => rfl
  | cons next pending ih =>
    unfold readFrom
    cases act goal limit frames operand? current with
    | shift frames operand? =>
      by_cases hclash : current.kind.clashes next.token.kind
      · simp [pass, hclash]
      · simp only [pass, hclash, Bool.false_eq_true, if_false]
        exact ih frames operand? next.token next.stop
    | _ => rfl

theorem outcome_readAll (limit : Nat) (p : Parser) :
    (p.readAll limit).1 = (p.read .expression limit).1 >>= fun e =>
      match p.unknown? with
      | some unknown => .error (.unknownCharacter unknown)
      | none => .ok e := by
  have hunknown : (p.read .expression limit).2.unknown? = p.unknown? :=
    unknown_readFrom _ _ _ _ _ _ _ _
  unfold readAll
  split
  · next hread => rw [hread, error_bind]
  · next e moved hread =>
    rw [hread] at hunknown ⊢
    simp only [drain, ok_bind, ← hunknown]
    cases moved.unknown? <;> rfl

end Parser

namespace Expr

theorem unknown_eq_none_of_parse_eq_ok {limit : Nat} {text : String} {e : Expr}
    (h : parse limit text = .ok e) : (Cursor.ofText text).lexed.unknown? = none := by
  obtain ⟨p, hp, h⟩ := bind_eq_ok_iff.mp h
  rw [Parser.outcome_readAll] at h
  obtain ⟨e', _, h⟩ := bind_eq_ok_iff.mp h
  cases hunknown : p.unknown? with
  | some unknown =>
    rw [hunknown] at h
    cases h
  | none =>
    simp only [Parser.ofText] at hp
    split at hp
    · obtain rfl := Except.ok.inj hp
      exact hunknown
    · cases hp
    · next hnone => exact hnone

/-- A text without unknown characters is read by its tokens. -/
theorem parse_eq_readTokens {text : String} (limit : Nat)
    (h : (Cursor.ofText text).lexed.unknown? = none) :
    parse limit text = readTokens .expression limit [] none (Cursor.ofText text).tokens := by
  simp only [parse, Parser.ofText, h, Cursor.tokens]
  cases (Cursor.ofText text).lexed.lexemes with
  | nil => rfl
  | cons first pending =>
    rw [List.map_cons, ← outcome_readFrom first.token first.stop pending, ok_bind,
      Parser.outcome_readAll]
    exact bind_pure _

theorem length_tokens_le (text : String) :
    (Cursor.ofText text).tokens.length ≤ text.length + 1 := by
  rw [Cursor.tokens, List.length_map, ← String.length_toList]
  exact Cursor.length_lexemes_le _

theorem height_lt_of_readTokens_eq_ok {limit : Nat} {tokens : List Token} {e : Expr}
    (h : readTokens .expression limit [] none tokens = .ok e) : e.height < tokens.length := by
  have hsize := size_lt_of_readTokens_eq_ok h
  rw [show load [] none = 0 from rfl, Nat.zero_add] at hsize
  exact Nat.lt_of_le_of_lt e.height_le_size hsize

theorem parseWithin_eq_ok_iff {limit : Nat} {text : String} {e : Expr} :
    parseWithin limit text = .ok e ↔ parse limit text = .ok e ∧ e.height ≤ limit := by
  unfold parseWithin
  rw [bind_eq_ok_iff]
  constructor
  · rintro ⟨e', he', h⟩
    split at h
    · next hheight =>
      obtain rfl := Except.ok.inj h
      exact ⟨he', hheight⟩
    · cases h
  · rintro ⟨he, hheight⟩
    exact ⟨e, he, if_pos hheight⟩

theorem height_le_length {limit : Nat} {text : String} {e : Expr} (h : parse limit text = .ok e) :
    e.height ≤ text.length := by
  have hlength := length_tokens_le text
  rw [parse_eq_readTokens limit (unknown_eq_none_of_parse_eq_ok h)] at h
  have hheight := height_lt_of_readTokens_eq_ok h
  omega

/-- A tree that a text has at one limit it has at any other, or the other one is lower and exceeded
because it is less than the length of the text. -/
theorem parse_limit (limit' : Nat) {limit : Nat} {text : String} {e : Expr}
    (h : parse limit text = .ok e) :
    parse limit' text = .ok e ∨
      parse limit' text = .error .nestedTooDeeply ∧ limit' < text.length ∧ limit' < limit := by
  have hunknown := unknown_eq_none_of_parse_eq_ok h
  have hlength := length_tokens_le text
  rw [parse_eq_readTokens limit hunknown] at h
  rw [parse_eq_readTokens limit' hunknown]
  refine (readTokens_limit limit' h).imp_right ?_
  rintro ⟨hdeep, hlt, hlower⟩
  rw [List.length_nil] at hlt
  exact ⟨hdeep, by omega, hlower⟩

theorem parse_callLimit {limit : Nat} {text : String} {e : Expr} (h : parse limit text = .ok e) :
    parse (callLimit limit) text = .ok e := by
  have hle := le_callLimit limit
  exact (parse_limit (callLimit limit) h).resolve_right fun hdeep => by omega

theorem simplify_eq_ok_iff {e : Expr} {p : TermSum} : e.simplify = .ok p ↔ e.reduce = .ok p := by
  unfold simplify
  cases e.reduce <;> simp

end Expr

section

variable {limit : Nat} {debug : Bool} {text : String} {e : Expr}

theorem Evaluation.outcome_ofSimplified (debug debug' : Bool) (text : String)
    (x : Except Fault TermSum) :
    (ofSimplified debug text x).outcome = (ofSimplified debug' text x).outcome := by
  unfold ofSimplified
  split <;> rfl

/-- The outcome depends on the tree of the text alone, and on the text only if it is echoed. -/
theorem outcome_evaluate (limit : Nat) (debug : Bool) (text : String) :
    (evaluate limit debug text).outcome =
      Expr.parse (callLimit limit) text >>= fun e =>
        if e.goesTooDeep limit then .error .nestedTooDeeply
        else (Evaluation.ofSimplified debug text e.simplify).outcome := by
  unfold evaluate
  cases Expr.parse (callLimit limit) text with
  | error fault => rfl
  | ok e =>
    rw [ok_bind]
    simp only [Expr.simplifyWithin_eq]
    cases e.goesTooDeep limit <;> rfl

theorem outcome_evaluate_of_parse (h : Expr.parseWithin limit text = .ok e) :
    (evaluate limit debug text).outcome =
      (Evaluation.ofSimplified debug text e.simplify).outcome := by
  obtain ⟨hparse, hheight⟩ := Expr.parseWithin_eq_ok_iff.mp h
  have hfits : ¬e.goesTooDeep limit = true := fun hdeep =>
    Nat.not_lt.mpr hheight (Expr.lt_height_of_goesTooDeep hdeep)
  rw [outcome_evaluate, Expr.parse_callLimit hparse, ok_bind, if_neg hfits]

theorem outcome_evaluate_of_simplify {p : TermSum} (hparse : Expr.parseWithin limit text = .ok e)
    (hsimplify : e.simplify = .ok p) : (evaluate limit debug text).outcome = .ok p.render := by
  rw [outcome_evaluate_of_parse hparse, hsimplify, Evaluation.ofSimplified]

/-- Where an evaluation comes to a result, the text has a tree and simplifying it leads there. -/
theorem parse_of_outcome_evaluate {result : String}
    (h : (evaluate limit debug text).outcome = .ok result) :
    ∃ e, Expr.parse (callLimit limit) text = .ok e ∧
      (Evaluation.ofSimplified debug text e.simplify).outcome = .ok result := by
  rw [outcome_evaluate] at h
  obtain ⟨e, hparse, h⟩ := bind_eq_ok_iff.mp h
  split at h
  · cases h
  · exact ⟨e, hparse, h⟩

/-- A result at one limit is the result at any other limit that is not exceeded. -/
theorem evaluate_limit (limit' : Nat) (debug' : Bool) {result : String}
    (h : (evaluate limit debug text).outcome = .ok result) :
    (evaluate limit' debug' text).outcome = .ok result ∨
      (evaluate limit' debug' text).outcome = .error .nestedTooDeeply ∧ limit' < text.length := by
  obtain ⟨e, hparse, hresult⟩ := parse_of_outcome_evaluate h
  have hle := le_callLimit limit'
  rw [outcome_evaluate]
  rcases Expr.parse_limit (callLimit limit') hparse with hparse' | ⟨hdeep, hlt, -⟩
  · rw [hparse', ok_bind]
    split
    · next hdeep =>
      have hheight := Expr.lt_height_of_goesTooDeep hdeep
      exact Or.inr ⟨rfl, Nat.lt_of_lt_of_le hheight (Expr.height_le_length hparse')⟩
    · left
      rw [Evaluation.outcome_ofSimplified debug' debug, hresult]
  · rw [hdeep]
    exact Or.inr ⟨rfl, by omega⟩

end

end LaurentCalc
