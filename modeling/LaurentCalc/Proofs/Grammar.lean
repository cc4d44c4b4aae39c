import LaurentCalc.Proofs.TokenReading

/-!
# The grammar

Which tokens make up which expression, as a derivation. Signs take the whole factor
behind them, powers group to the right and the other operators to the left. What the
grammar derives is read, whatever frames are open around it.
-/

namespace LaurentCalc

set_option autoImplicit false

namespace BinaryOp

def rightLevel : BinaryOp → Level
  | .power | .scaling _ => .factor
  | .additive _ | .unknown _ => .term

theorem rank_rightLevel_le (op : BinaryOp) : op.rightLevel.rank ≤ op.level.rank := by
  cases op <;> simp [rightLevel, level, Level.rank]

theorem rank_level_le_expression (op : BinaryOp) : op.level.rank ≤ Level.expression.rank := by
  cases op <;> simp [level, Level.rank]

theorem rank_rightLevel_lt {op : BinaryOp} (h : Level.term.rank ≤ op.rightLevel.rank) :
    op.rightLevel.rank < op.level.rank := by
  cases op <;> simp_all [rightLevel, level, Level.rank]

/-- Operators may stand beside any token. -/
theorem clashes_eq_false_of_ofToken? {kind : TokenKind} {op : BinaryOp}
    (h : ofToken? kind = some op) (other : TokenKind) :
    kind.clashes other = false ∧ other.clashes kind = false := by
  cases kind <;> cases other <;> first | exact ⟨rfl, rfl⟩ | cases h

end BinaryOp

def Sign.kind : Sign → TokenKind
  | .plus => .plus
  | .minus => .minus

/-- The tokens make up the expression as a phrase of the given level. -/
inductive Derives : Level → List Token → Expr → Prop where
  | integer (n : Nat) : Derives .atom [.integer n] (.number n)
  | name (x : String) : Derives .atom [.identifier x] (.term (.named x))
  | group {left right : Token} {ts : List Token} {e : Expr} (hleft : left.kind = .leftParen)
      (hright : right.kind = .rightParen) (h : Derives .expression ts e) :
      Derives .atom (left :: (ts ++ [right])) e
  | sign {token : Token} {s : Sign} {ts : List Token} {e : Expr} (hkind : token.kind = s.kind)
      (h : Derives .factor ts e) : Derives .factor (token :: ts) (.unary (.sign s) e)
  | binary {token : Token} {op : BinaryOp} {ts us : List Token} {l r : Expr}
      (hop : BinaryOp.ofToken? token.kind = some op) (hl : Derives op.leftLevel ts l)
      (hr : Derives op.rightLevel us r) : Derives op.level (ts ++ token :: us) (.binary op l r)
  | widen {level level' : Level} {ts : List Token} {e : Expr} (h : Derives level ts e)
      (hle : level.rank ≤ level'.rank) : Derives level' ts e

section

variable {level level' : Level} {frames around : List Frame} {e whole : Expr}

theorem Frame.endsWithin_mono {frame : Frame} (hle : level.rank ≤ level'.rank)
    (h : frame.endsWithin level = true) : frame.endsWithin level' = true := by
  cases frame with
  | sign s =>
    simp only [endsWithin, decide_eq_true_eq] at h ⊢
    omega
  | operator op left =>
    simp only [endsWithin, decide_eq_true_eq] at h ⊢
    omega
  | group => cases h

/-- Frames that end within a phrase also end within any looser one, whatever surrounds them. -/
theorem settle_append (hle : level.rank ≤ level'.rank) (h : settle level frames e = ([], whole)) :
    settle level' (frames ++ around) e = settle level' around whole := by
  induction frames generalizing e with
  | nil =>
    cases h
    rfl
  | cons frame frames ih =>
    rw [settle] at h
    split at h
    · next hends =>
      rw [List.cons_append, settle, if_pos (Frame.endsWithin_mono hle hends)]
      exact ih h
    · cases h

/-- The innermost of the frames stays open at the end of a phrase of the given level. -/
def Blocks (frames : List Frame) (level : Level) : Prop :=
  ∀ frame ∈ frames.head?, frame.endsWithin level = false

theorem Blocks.settle_eq (h : Blocks frames level) : settle level frames e = (frames, e) := by
  cases frames with
  | nil => rfl
  | cons frame frames =>
    rw [settle, if_neg]
    exact Bool.eq_false_iff.mp (h frame rfl)

theorem Blocks.mono (hle : level.rank ≤ level'.rank) (h : Blocks frames level') :
    Blocks frames level := by
  intro frame hframe
  rw [Bool.eq_false_iff]
  intro hends
  have hblocked := h frame hframe
  rw [Frame.endsWithin_mono hle hends] at hblocked
  cases hblocked

theorem blocks_atom (frames : List Frame) : Blocks frames .atom := by
  intro frame _
  cases frame with
  | sign s => rfl
  | operator op left => cases op <;> rfl
  | group => rfl

theorem blocks_leftLevel {op : BinaryOp}
    (h : Level.term.rank ≤ op.level.rank → Blocks frames op.level) :
    Blocks frames op.leftLevel := by
  cases op with
  | power => exact blocks_atom frames
  | scaling | additive | unknown => exact h (by simp [BinaryOp.level, Level.rank])

theorem blocks_cons_operator {op : BinaryOp} {left : Expr} (h : level.rank < op.level.rank) :
    Blocks (.operator op left :: frames) level := by
  rintro _ ⟨⟩
  exact decide_eq_false (Nat.not_le.mpr h)

theorem blocks_cons_group : Blocks (.group :: frames) level := by
  rintro _ ⟨⟩
  rfl

variable {goal : Level} {limit : Nat} {token : Token}

/-- A way of reading tokens in which a token that is shifted gets passed, unless the next one may
not follow it. -/
def Passes {β : Type} (limit : Nat) (read : List Frame → Option Expr → List Token → β) : Prop :=
  ∀ {frames frames' : List Frame} {operand? operand?' : Option Expr} {token next : Token}
    {ahead : List Token}, act .expression limit frames operand? token = .shift frames' operand?' →
      token.kind.clashes next.kind = false →
      read frames operand? (token :: next :: ahead) = read frames' operand?' (next :: ahead)

theorem passes_readTokens (limit : Nat) : Passes limit (readTokens .expression limit) :=
  readTokens_shift

theorem Passes.pass {β : Type} {read : List Frame → Option Expr → List Token → β}
    (hread : Passes limit read) {ahead : List Token} {frames' : List Frame}
    {operand? operand?' : Option Expr}
    (h : act .expression limit frames operand? token = .shift frames' operand?')
    (hfree : ∀ kind, token.kind.clashes kind = false) (hahead : ahead ≠ []) :
    read frames operand? (token :: ahead) = read frames' operand?' ahead := by
  cases ahead with
  | nil => exact absurd rfl hahead
  | cons next more => exact hread h (hfree next.kind)

theorem opening_eq {frame : Frame} (h : frames.length < limit) :
    Action.opening limit frame frames = .shift (frame :: frames) none := by
  rw [Action.opening, if_pos h]

theorem act_sign {s : Sign} (hkind : token.kind = s.kind) (h : frames.length < limit) :
    act goal limit frames none token = .shift (.sign s :: frames) none := by
  obtain ⟨kind, value⟩ := token
  cases s <;> cases hkind <;> exact opening_eq h

theorem act_leftParen (hkind : token.kind = .leftParen) (h : frames.length < limit) :
    act goal limit frames none token = .shift (.group :: frames) none := by
  obtain ⟨kind, value⟩ := token
  cases hkind
  exact opening_eq h

theorem act_operator {op : BinaryOp} (hop : BinaryOp.ofToken? token.kind = some op)
    (hlevel : op.level.rank ≤ goal.rank)
    (hsettle : settle op.leftLevel frames e = (around, whole)) (h : around.length < limit) :
    act goal limit frames (some e) token = .shift (.operator op whole :: around) none := by
  rw [act, afterOperand, hop]
  simp only [hsettle]
  cases around with
  | nil =>
    simp only
    rw [if_pos hlevel, opening_eq h]
  | cons => exact opening_eq h

theorem act_rightParen (hkind : token.kind = .rightParen)
    (hsettle : settle .expression frames e = (.group :: around, whole)) :
    act goal limit frames (some e) token = .shift around (some whole) := by
  rw [act, afterOperand, hkind]
  simp only [BinaryOp.ofToken?, hsettle, if_true]

theorem act_end (hkind : BinaryOp.ofToken? token.kind = none)
    (hsettle : settle .expression frames e = ([], whole)) :
    act goal limit frames (some e) token = .finish whole := by
  rw [act, afterOperand, hkind]
  simp only [hsettle]

end

/-- How many phrases are open at a time in an expression that is written without parentheses. -/
def Expr.nesting : Expr → Nat
  | .term _ => 0
  | .unary _ e => e.nesting + 1
  | .binary _ l r => max l.nesting (r.nesting + 1)

def groups (ts : List Token) : Nat := ts.countP fun token => token.kind = .leftParen

theorem groups_append (ts us : List Token) : groups (ts ++ us) = groups ts + groups us :=
  List.countP_append

theorem groups_cons_leftParen {token : Token} (hkind : token.kind = .leftParen) (ts : List Token) :
    groups (token :: ts) = groups ts + 1 :=
  List.countP_cons_of_pos (by simpa using hkind)

theorem groups_cons {token : Token} (hkind : token.kind ≠ .leftParen) (ts : List Token) :
    groups (token :: ts) = groups ts :=
  List.countP_cons_of_neg (by simpa using hkind)

theorem Sign.kind_ne_leftParen (s : Sign) : s.kind ≠ .leftParen := by
  cases s <;> exact TokenKind.noConfusion

theorem BinaryOp.ne_leftParen_of_ofToken? {kind : TokenKind} {op : BinaryOp}
    (h : ofToken? kind = some op) : kind ≠ .leftParen := by
  rintro rfl
  cases h

namespace Derives

variable {level : Level} {ts : List Token} {e : Expr}

/-- Opening a phrase takes a token of its own. -/
theorem groups_add_nesting_le (h : Derives level ts e) : groups ts + e.nesting ≤ ts.length := by
  induction h with
  | integer | name => exact Nat.zero_le 1
  | @group _ right _ _ hleft _ _ ih =>
    have hright : groups [right] ≤ 1 := List.countP_le_length
    rw [groups_cons_leftParen hleft, groups_append, List.length_cons, List.length_append]
    simp only [List.length_singleton]
    omega
  | @sign _ s _ _ hkind _ ih =>
    rw [groups_cons (hkind ▸ s.kind_ne_leftParen), Expr.nesting, List.length_cons]
    omega
  | binary hop _ _ ihl ihr =>
    rw [groups_append, groups_cons (BinaryOp.ne_leftParen_of_ofToken? hop), Expr.nesting,
      List.length_append, List.length_cons]
    omega
  | widen _ _ ih => exact ih

/-- Reading what the grammar derives leads behind its last token, with frames that all end within
the phrase. Only terms and expressions could be taken for a part of the frame around them. -/
theorem read_append (h : Derives level ts e) {β : Type} {limit : Nat}
    {read : List Frame → Option Expr → List Token → β} (hread : Passes limit read)
    {frames : List Frame} {next : Token} {rest : List Token}
    (hclash : ∀ last ∈ ts.getLast?, last.kind.clashes next.kind = false)
    (hlimit : frames.length + (groups ts + e.nesting) ≤ limit)
    (hblocks : Level.term.rank ≤ level.rank → Blocks frames level) :
    ∃ inner operand, settle level inner operand = ([], e) ∧
      read frames none (ts ++ next :: rest) =
        read (inner ++ frames) (some operand) (next :: rest) := by
  -- `inner` holds the signs and operators that still wait for their last operand to end.
  induction h generalizing frames next rest with
  | integer n =>
    have hact : act .expression limit frames none (.integer n) =
        .shift frames (some (.number n)) := rfl
    exact ⟨[], .number n, rfl, hread hact (hclash _ rfl)⟩
  | name x =>
    have hact : act .expression limit frames none (.identifier x) =
        .shift frames (some (.term (.named x))) := rfl
    exact ⟨[], .term (.named x), rfl, hread hact (hclash _ rfl)⟩
  | @group left right ts e hleft hright h ih =>
    rw [groups_cons_leftParen hleft, groups_append] at hlimit
    obtain ⟨inner, operand, hsettle, hpassed⟩ := @ih (.group :: frames) right (next :: rest)
      (fun last _ => by rw [hright]; cases last.kind <;> rfl)
      (by rw [List.length_cons]; omega)
      (fun _ => blocks_cons_group)
    refine ⟨[], e, rfl, ?_⟩
    have hclose : settle .expression (inner ++ .group :: frames) operand = (.group :: frames, e) :=
      settle_append (Nat.le_refl _) hsettle
    rw [List.cons_append, List.append_assoc, List.singleton_append,
      hread.pass (act_leftParen hleft (by omega)) (fun kind => by rw [hleft]; rfl) (by simp),
      hpassed]
    refine hread (act_rightParen hright hclose) (hclash right ?_)
    rw [← List.cons_append, List.getLast?_concat, Option.mem_def]
  | @sign token s ts e hkind h ih =>
    rw [groups_cons (hkind ▸ s.kind_ne_leftParen), Expr.nesting] at hlimit
    have hlast : ∀ last ∈ ts.getLast?, last.kind.clashes next.kind = false := by
      intro last hmem
      apply hclash
      rw [List.getLast?_cons, Option.mem_def.mp hmem]
      rfl
    obtain ⟨inner, operand, hsettle, hpassed⟩ := @ih (.sign s :: frames) next rest hlast
      (by rw [List.length_cons]; omega) (fun hterm => absurd hterm (by decide))
    refine ⟨inner ++ [.sign s], operand, ?_, ?_⟩
    · rw [settle_append (Nat.le_refl _) hsettle]
      rfl
    · rw [List.cons_append, hread.pass (act_sign hkind (by omega)) ?_ (by simp), hpassed,
        List.append_assoc, List.singleton_append]
      intro kind
      rw [hkind]
      cases s <;> rfl
  | @binary token op ts us l r hop hl hr ihl ihr =>
    have hfree := BinaryOp.clashes_eq_false_of_ofToken? hop
    rw [groups_append, groups_cons (BinaryOp.ne_leftParen_of_ofToken? hop), Expr.nesting] at hlimit
    have hblocksLeft := blocks_leftLevel hblocks
    obtain ⟨innerLeft, left, hsettleLeft, hpassedLeft⟩ := @ihl frames token (us ++ next :: rest)
      (fun last _ => (hfree last.kind).2) (by omega)
      (fun _ => hblocksLeft)
    have hlast : ∀ last ∈ us.getLast?, last.kind.clashes next.kind = false := by
      intro last hmem
      apply hclash
      rw [List.getLast?_append, List.getLast?_cons, Option.mem_def.mp hmem]
      rfl
    obtain ⟨innerRight, right, hsettleRight, hpassedRight⟩ := @ihr (.operator op l :: frames)
      next rest hlast (by rw [List.length_cons]; omega) fun hterm =>
        blocks_cons_operator (BinaryOp.rank_rightLevel_lt hterm)
    have hopen : settle op.leftLevel (innerLeft ++ frames) left = (frames, l) := by
      rw [settle_append (Nat.le_refl _) hsettleLeft, hblocksLeft.settle_eq]
    refine ⟨innerRight ++ [.operator op l], right, ?_, ?_⟩
    · rw [settle_append op.rank_rightLevel_le hsettleRight, settle, if_pos, settle]
      · rfl
      · exact decide_eq_true (Nat.le_refl _)
    · rw [List.append_assoc, List.cons_append, hpassedLeft,
        hread.pass (act_operator hop op.rank_level_le_expression hopen (by omega))
          (fun kind => (hfree kind).1) (by simp),
        hpassedRight, List.append_assoc, List.singleton_append]
  | @widen level level' ts e h hle ih =>
    obtain ⟨inner, operand, hsettle, hpassed⟩ := @ih frames next rest hclash hlimit fun hterm =>
      (hblocks (Nat.le_trans hterm hle)).mono hle
    have hsettle' : settle level' inner operand = ([], e) := by
      rw [← List.append_nil inner]
      exact settle_append hle hsettle
    exact ⟨inner, operand, hsettle', hpassed⟩

theorem read_expression (h : Derives .expression ts e) {β : Type} {limit : Nat}
    {read : List Frame → Option Expr → List Token → β} (hread : Passes limit read) {next : Token}
    {rest : List Token} (hclash : ∀ last ∈ ts.getLast?, last.kind.clashes next.kind = false)
    (hlimit : groups ts + e.nesting ≤ limit) :
    ∃ inner operand, settle .expression inner operand = ([], e) ∧
      read [] none (ts ++ next :: rest) = read inner (some operand) (next :: rest) := by
  have hpassed := @read_append .expression ts e h β limit read hread [] next rest hclash
    (by rwa [List.length_nil, Nat.zero_add]) fun _ frame hframe => by cases hframe
  simpa only [List.append_nil] using hpassed

/-- What the grammar derives is read up to a token that cannot go on with it. -/
theorem readTokens_eq_ok (h : Derives .expression ts e) {limit : Nat} {next : Token}
    {rest : List Token} (hnext : BinaryOp.ofToken? next.kind = none)
    (hclash : ∀ last ∈ ts.getLast?, last.kind.clashes next.kind = false)
    (hlimit : groups ts + e.nesting ≤ limit) :
    readTokens .expression limit [] none (ts ++ next :: rest) = .ok e := by
  obtain ⟨inner, operand, hsettle, hpassed⟩ :=
    h.read_expression (passes_readTokens limit) hclash hlimit
  rw [hpassed]
  exact readTokens_finish (act_end hnext hsettle)

end Derives

end LaurentCalc
