import LaurentCalc.Proofs.Reading
import LaurentCalc.Proofs.Written

/-!
# What is read is derived

The tokens read so far are those of the phrases begun and of the operand behind them.
So what a reading finishes with has a derivation, and a reading that goes on can be
brought to an end by closing what is open.
-/

namespace LaurentCalc

set_option autoImplicit false

/-- The tokens lead to a place within the frames where a phrase of the given level has to begin. -/
inductive Awaits : List Frame → Level → List Token → Prop where
  | start : Awaits [] .expression []
  | group {frames : List Frame} {level : Level} {ts : List Token} {token : Token}
      (hkind : token.kind = .leftParen) (h : Awaits frames level ts) :
      Awaits (.group :: frames) .expression (ts ++ [token])
  | sign {frames : List Frame} {level : Level} {ts : List Token} {token : Token} {s : Sign}
      (hkind : token.kind = s.kind) (h : Awaits frames level ts) :
      Awaits (.sign s :: frames) .factor (ts ++ [token])
  | operator {frames : List Frame} {level : Level} {ts us : List Token} {token : Token}
      {op : BinaryOp} {left : Expr} (hop : BinaryOp.ofToken? token.kind = some op)
      (hleft : Derives op.leftLevel us left) (hle : op.level.rank ≤ level.rank)
      (h : Awaits frames level ts) :
      Awaits (.operator op left :: frames) op.rightLevel (ts ++ us ++ [token])

/-- Whether an expression may end with a token of the given kind. -/
def TokenKind.closes : TokenKind → Bool
  | .integer | .identifier | .rightParen => true
  | _ => false

section

variable {frames frames' : List Frame} {level level' : Level} {ts us : List Token} {token : Token}
variable {operand? : Option Expr} {e e' : Expr} {limit : Nat}

namespace Derives

theorem ne_endOfText (h : Derives level ts e) : ∀ token ∈ ts, token.kind ≠ .endOfText := by
  induction h with
  | integer | name => exact List.forall_mem_singleton.mpr TokenKind.noConfusion
  | group hleft hright _ ih =>
    rw [List.forall_mem_cons, List.forall_mem_append, List.forall_mem_singleton, hleft, hright]
    exact ⟨TokenKind.noConfusion, ih, TokenKind.noConfusion⟩
  | @sign _ s _ _ hkind _ ih =>
    rw [List.forall_mem_cons, hkind]
    exact ⟨by cases s <;> exact TokenKind.noConfusion, ih⟩
  | binary hop _ _ ihl ihr =>
    rw [List.forall_mem_append, List.forall_mem_cons]
    refine ⟨ihl, ?_, ihr⟩
    intro hkind
    rw [hkind] at hop
    cases hop
  | widen _ _ ih => exact ih

theorem closes_getLast (h : Derives level ts e) :
    ∃ last, ts.getLast? = some last ∧ last.kind.closes = true := by
  induction h with
  | integer n => exact ⟨_, rfl, rfl⟩
  | name x => exact ⟨_, rfl, rfl⟩
  | @group left right ts e _ hright =>
    rw [← List.cons_append, List.getLast?_concat]
    exact ⟨right, rfl, by rw [hright]; rfl⟩
  | sign _ _ ih =>
    obtain ⟨last, hlast, hcloses⟩ := ih
    rw [List.getLast?_cons, hlast]
    exact ⟨last, rfl, hcloses⟩
  | binary _ _ _ _ ihr =>
    obtain ⟨last, hlast, hcloses⟩ := ihr
    rw [List.getLast?_append, List.getLast?_cons, hlast]
    exact ⟨last, rfl, hcloses⟩
  | widen _ _ ih => exact ih

end Derives

namespace BinaryOp

theorem factor_le_rightLevel (op : BinaryOp) : Level.factor.rank ≤ op.rightLevel.rank := by
  cases op <;> simp [rightLevel, Level.rank]

theorem level_le_factor {op : BinaryOp} (h : ¬Level.factor.rank ≤ op.leftLevel.rank) :
    op.level.rank ≤ Level.factor.rank := by
  cases op <;> simp_all [level, leftLevel, Level.rank]

theorem level_le_rightLevel {op op' : BinaryOp} (h : ¬op'.level.rank ≤ op.leftLevel.rank) :
    op.level.rank ≤ op'.rightLevel.rank := by
  cases op <;> cases op' <;> simp_all [rightLevel, level, leftLevel, Level.rank]

end BinaryOp

theorem blocks_settle (level : Level) (frames : List Frame) (e : Expr) :
    Blocks (settle level frames e).1 level := by
  induction frames generalizing e with
  | nil => intro frame hframe; cases hframe
  | cons frame frames ih =>
    rw [settle]
    split
    · exact ih (frame.complete e)
    · next hends =>
      rintro _ ⟨⟩
      exact Bool.eq_false_iff.mpr hends

namespace Awaits

theorem factor_le (h : Awaits frames level ts) : Level.factor.rank ≤ level.rank := by
  cases h with
  | start | group | sign => decide
  | @operator _ _ _ _ _ op => exact op.factor_le_rightLevel

theorem nil_eq (h : Awaits [] level ts) : ts = [] := by
  cases h
  rfl

/-- Behind frames that stay open before an operator, there is room for what the operator builds. -/
theorem level_le {op : BinaryOp} (h : Awaits frames level ts)
    (hblocks : Blocks frames op.leftLevel) : op.level.rank ≤ level.rank := by
  cases h with
  | start | group => exact op.rank_level_le_expression
  | sign => exact BinaryOp.level_le_factor (of_decide_eq_false (hblocks _ rfl))
  | operator => exact BinaryOp.level_le_rightLevel (of_decide_eq_false (hblocks _ rfl))

/-- Completing frames gives a phrase that fits where the frames that are left wait for one. -/
theorem of_settle {inner : Level} (h : Awaits frames level ts) (he : Derives inner us e)
    (hle : inner.rank ≤ level.rank) (hle' : inner.rank ≤ level'.rank)
    (hsettle : settle level' frames e = (frames', e')) :
    ∃ outer front back, Awaits frames' outer front ∧ Derives level' back e' ∧
      Derives outer back e' ∧ front ++ back = ts ++ us := by
  induction h generalizing inner us e with
  | start =>
    cases hsettle
    exact ⟨_, [], us, .start, he.widen hle', he.widen hle, rfl⟩
  | @group frames level ts token hkind h ih =>
    cases hsettle
    exact ⟨_, ts ++ [token], us, .group hkind h, he.widen hle', he.widen hle, rfl⟩
  | @sign frames level ts token s hkind h ih =>
    rw [settle] at hsettle
    split at hsettle
    · next hends =>
      -- The sign now belongs to the phrase, which has become a factor.
      obtain ⟨outer, front, back, hfront, hback, hback', heq⟩ :=
        ih (.sign hkind (he.widen hle)) h.factor_le (of_decide_eq_true hends) hsettle
      exact ⟨outer, front, back, hfront, hback, hback', by rw [heq, List.append_cons]⟩
    · cases hsettle
      exact ⟨_, ts ++ [token], us, .sign hkind h, he.widen hle', he.widen hle, rfl⟩
  | @operator frames level ts vs token op left hop hleft hlevel h ih =>
    rw [settle] at hsettle
    split at hsettle
    · next hends =>
      obtain ⟨outer, front, back, hfront, hback, hback', heq⟩ :=
        ih (.binary hop hleft (he.widen hle)) hlevel (of_decide_eq_true hends) hsettle
      refine ⟨outer, front, back, hfront, hback, hback', ?_⟩
      rw [heq, List.append_assoc, List.append_assoc, List.singleton_append]
    · cases hsettle
      exact ⟨_, ts ++ vs ++ [token], us, .operator hop hleft hlevel h, he.widen hle', he.widen hle,
        rfl⟩

/-- Whatever is open can be closed behind a phrase that fits. -/
theorem complete (h : Awaits frames level ts) (he : Derives level us e) :
    ∃ more whole, Derives .expression (ts ++ us ++ more) whole := by
  induction h generalizing us e with
  | start => exact ⟨[], e, by rwa [List.nil_append, List.append_nil]⟩
  | @group frames level ts token hkind h ih =>
    have hatom : Derives .atom (token :: (us ++ [.symbol .rightParen ')'])) e :=
      .group hkind rfl he
    obtain ⟨more, whole, hwhole⟩ := ih (hatom.widen (Nat.zero_le _))
    refine ⟨.symbol .rightParen ')' :: more, whole, ?_⟩
    simpa only [List.append_assoc, List.cons_append, List.nil_append] using hwhole
  | @sign frames level ts token s hkind h ih =>
    obtain ⟨more, whole, hwhole⟩ := ih ((he.sign hkind).widen h.factor_le)
    refine ⟨more, whole, ?_⟩
    simpa only [List.append_assoc, List.cons_append, List.nil_append] using hwhole
  | @operator frames level ts vs token op left hop hleft hlevel h ih =>
    obtain ⟨more, whole, hwhole⟩ := ih ((Derives.binary hop hleft he).widen hlevel)
    refine ⟨more, whole, ?_⟩
    simpa only [List.append_assoc, List.cons_append, List.nil_append] using hwhole

end Awaits

theorem Blocks.eq_group {frame : Frame} (h : Blocks (frame :: frames) .expression) :
    frame = .group := by
  have hends := h frame rfl
  cases frame with
  | sign s => cases hends
  | operator op left =>
    exact absurd op.rank_level_le_expression (of_decide_eq_false hends)
  | group => rfl

/-- The tokens are the ones read so far: a phrase has to begin behind them, or they end with an
atom where one may stand. -/
def Begun (frames : List Frame) (ts : List Token) : Option Expr → Prop
  | none => ∃ level, Awaits frames level ts
  | some e => ∃ level front back,
    Awaits frames level front ∧ Derives .atom back e ∧ front ++ back = ts

theorem Awaits.operator_of_settle {opened : List Frame} {left : Expr} {op : BinaryOp}
    (hop : BinaryOp.ofToken? token.kind = some op) (h : Awaits frames level ts)
    (he : Derives .atom us e)
    (hsettle : settle op.leftLevel frames e = (opened, left)) :
    Awaits (.operator op left :: opened) op.rightLevel (ts ++ us ++ [token]) := by
  have hblocks := blocks_settle op.leftLevel frames e
  rw [hsettle] at hblocks
  obtain ⟨outer, front, back, hfront, hback, -, heq⟩ :=
    h.of_settle he (Nat.zero_le _) (Nat.zero_le _) hsettle
  rw [← heq]
  exact .operator hop hback (hfront.level_le hblocks) hfront

theorem Begun.shift {operand? operand?' : Option Expr} (h : Begun frames ts operand?)
    (htoken : token.Proper) (hshift : Shifts frames token operand? frames' operand?') :
    Begun frames' (ts ++ [token]) operand?' := by
  cases hshift with
  | integer n =>
    obtain ⟨level, hawaits⟩ := h
    obtain ⟨m, rfl⟩ := Int.eq_ofNat_of_zero_le htoken
    exact ⟨level, ts, [.integer m], hawaits, .integer m, rfl⟩
  | identifier x =>
    obtain ⟨level, hawaits⟩ := h
    exact ⟨level, ts, [.identifier x], hawaits, .name x, rfl⟩
  | plus hkind =>
    obtain ⟨level, hawaits⟩ := h
    exact ⟨.factor, .sign hkind hawaits⟩
  | minus hkind =>
    obtain ⟨level, hawaits⟩ := h
    exact ⟨.factor, .sign hkind hawaits⟩
  | group hkind =>
    obtain ⟨level, hawaits⟩ := h
    exact ⟨.expression, .group hkind hawaits⟩
  | operator hop hsettle =>
    obtain ⟨level, front, back, hawaits, he, rfl⟩ := h
    exact ⟨_, hawaits.operator_of_settle hop he hsettle⟩
  | @close _ e inner frame opened hkind hsettle =>
    obtain ⟨level, front, back, hawaits, he, rfl⟩ := h
    have hblocks := blocks_settle .expression frames e
    rw [hsettle] at hblocks
    obtain rfl := hblocks.eq_group
    obtain ⟨outer, front', back', hfront, hback, -, heq⟩ :=
      hawaits.of_settle he (Nat.zero_le _) (Nat.zero_le _) hsettle
    cases hfront with
    | @group _ level ts' left hleft hopened =>
      refine ⟨level, ts', left :: (back' ++ [token]), hopened, .group hleft hkind hback, ?_⟩
      rw [← heq]
      simp only [List.append_assoc, List.cons_append, List.nil_append]

/-- What is read so far, the token just passed included. -/
structure Reading.Holds (r : Reading) (ts : List Token) : Prop where
  passed : r.passed? = ts.getLast?
  begun : Begun r.frames ts r.operand?

namespace Reading

variable {r r' : Reading}

theorem holds_start : start.Holds [] := ⟨rfl, _, .start⟩

theorem Holds.step (h : r.Holds ts) (htoken : token.Proper)
    (hstep : r.step limit token = .next r') : r'.Holds (ts ++ [token]) := by
  obtain ⟨-, hact, hpassed⟩ := act_of_step_eq_next hstep
  refine ⟨by rw [hpassed, List.getLast?_concat], h.begun.shift htoken (shifts_of_act hact)⟩

theorem settle_of_finish {frames : List Frame} {operand? : Option Expr}
    (h : act .expression limit frames operand? token = .finish e) :
    BinaryOp.ofToken? token.kind = none ∧
      ∃ operand, operand? = some operand ∧ settle .expression frames operand = ([], e) := by
  obtain ⟨operand, hoperand, hfinishes⟩ := finishes_of_act h
  cases hfinishes with
  | @operator op hop hrank hsettle => exact absurd op.rank_level_le_expression hrank
  | other hnone hsettle => exact ⟨hnone, operand, hoperand, hsettle⟩

/-- A reading finishes with an expression that the tokens so far make up, before a token that
cannot go on with it. -/
theorem Holds.finish (h : r.Holds ts) (hstep : r.step limit token = .finish e) :
    Derives .expression ts e ∧ BinaryOp.ofToken? token.kind = none ∧
      ∀ last ∈ ts.getLast?, last.kind.clashes token.kind = false := by
  obtain ⟨hclash, hact⟩ := act_of_step_eq_finish hstep
  obtain ⟨hnone, operand, hoperand, hsettle⟩ := settle_of_finish hact
  have hbegun := h.begun
  rw [hoperand] at hbegun
  obtain ⟨level, front, back, hawaits, he, heq⟩ := hbegun
  obtain ⟨outer, front', back', hawaits', hback, -, heq'⟩ :=
    hawaits.of_settle he (Nat.zero_le _) (Nat.zero_le _) hsettle
  obtain rfl := hawaits'.nil_eq
  rw [heq, List.nil_append] at heq'
  subst heq'
  refine ⟨hback, hnone, ?_⟩
  intro last hlast
  rw [clashing?, h.passed, Option.mem_def.mp hlast] at hclash
  exact Bool.eq_false_iff.mpr (Option.filter_eq_none_iff.mp hclash last rfl)

theorem Holds.run_ongoing (h : r.Holds ts) (hus : ∀ token ∈ us, token.Proper)
    (hrun : r.run limit us = .ongoing r') : r'.Holds (ts ++ us) := by
  induction us generalizing r ts with
  | nil =>
    cases hrun
    rwa [List.append_nil]
  | cons token ahead ih =>
    obtain ⟨htoken, hahead⟩ := List.forall_mem_cons.mp hus
    rcases run_cons hrun with ⟨r'', hstep, hrun⟩ | ⟨e, -, hrun⟩ | ⟨fault, -, hrun⟩
    · rw [List.append_cons]
      exact ih (h.step htoken hstep) hahead hrun
    · cases hrun
    · cases hrun

theorem Holds.run_finished {rest : List Token} (h : r.Holds ts) (hus : ∀ token ∈ us, token.Proper)
    (hrun : r.run limit us = .finished e rest) :
    ∃ front next more, us = front ++ rest ∧ rest = next :: more ∧
      Derives .expression (ts ++ front) e ∧ BinaryOp.ofToken? next.kind = none ∧
      ∀ last ∈ (ts ++ front).getLast?, last.kind.clashes next.kind = false := by
  induction us generalizing r ts with
  | nil => cases hrun
  | cons token ahead ih =>
    obtain ⟨htoken, hahead⟩ := List.forall_mem_cons.mp hus
    rcases run_cons hrun with ⟨r'', hstep, hrun⟩ | ⟨e', hstep, hrun⟩ | ⟨fault, -, hrun⟩
    · obtain ⟨front, next, more, heq, hrest, hfinish⟩ := ih (h.step htoken hstep) hahead hrun
      rw [List.append_assoc, List.singleton_append] at hfinish
      exact ⟨token :: front, next, more, by rw [heq, List.cons_append], hrest, hfinish⟩
    · cases hrun
      have hfinish := h.finish hstep
      rw [← List.append_nil ts] at hfinish
      exact ⟨[], token, ahead, rfl, rfl, hfinish⟩
    · cases hrun

/-- A reading can be brought to an end by further tokens. -/
theorem Holds.complete (h : r.Holds ts) :
    ∃ more whole, Derives .expression (ts ++ more) whole := by
  have hbegun := h.begun
  cases hoperand : r.operand? with
  | none =>
    rw [hoperand] at hbegun
    obtain ⟨level, hawaits⟩ := hbegun
    obtain ⟨more, whole, hwhole⟩ := hawaits.complete ((Derives.integer 1).widen (Nat.zero_le _))
    exact ⟨.integer 1 :: more, whole, by rwa [List.append_cons]⟩
  | some e =>
    rw [hoperand] at hbegun
    obtain ⟨level, front, back, hawaits, he, heq⟩ := hbegun
    obtain ⟨more, whole, hwhole⟩ := hawaits.complete (he.widen (Nat.zero_le _))
    exact ⟨more, whole, by rwa [← heq]⟩

end Reading

end

end LaurentCalc
