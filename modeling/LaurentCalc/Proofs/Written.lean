import LaurentCalc.Proofs.Names
import LaurentCalc.Proofs.Scanning

/-!
# Written trees

The leaves of a tree that is read from a text are natural numbers and plain names,
and a name is a nonempty word of letters.
-/

namespace LaurentCalc

set_option autoImplicit false

def Spelled (x : String) : Prop := x ≠ "" ∧ ∀ c ∈ x.toList, Text.isLetter c = true

def Term.Written : Term → Prop
  | .number n => 0 ≤ n
  | .monomial x c e => Spelled x ∧ c = 1 ∧ e = 1

def Expr.Written : Expr → Prop
  | .term t => t.Written
  | .unary _ e => e.Written
  | .binary _ l r => l.Written ∧ r.Written

theorem Expr.Written.over {e : Expr} (h : e.Written) : e.Over Spelled := by
  induction e with
  | term t =>
    cases t with
    | number n => trivial
    | monomial x c e => exact h.1
  | unary op e ih => exact ih h
  | binary op l r ihl ihr => exact ⟨ihl h.1, ihr h.2⟩

def Token.Proper : Token → Prop
  | ⟨.integer, .number n⟩ => 0 ≤ n
  | ⟨.identifier, .text x⟩ => Spelled x
  | _ => True

namespace Cursor

theorem proper_of_tokenHere {c after : Cursor} {token : Token}
    (h : c.tokenHere = (.ok token, after)) : token.Proper := by
  cases reads_of_tokenHere h with
  | endOfText hrest => trivial
  | integer hrest hdigit => exact Int.natCast_nonneg _
  | identifier hrest hletter =>
    constructor
    · intro hempty
      have hnil : c.run Text.isLetter = [] := by
        rw [← String.toList_ofList (l := c.run Text.isLetter)]
        exact String.toList_eq_nil_iff.mpr hempty
      simp [run, hrest, hletter] at hnil
    · intro ch' hch'
      rw [identifier, String.toList_ofList] at hch'
      exact List.all_eq_true.mp List.all_takeWhile ch' hch'
  | symbol hrest hsymbol =>
    unfold TokenKind.ofSymbol? at hsymbol
    repeat' split at hsymbol
    all_goals cases hsymbol
    all_goals trivial

theorem proper_of_mem_tokens (c : Cursor) : ∀ token ∈ c.tokens, token.Proper := by
  rw [tokens]
  induction c using lexedInduction with
  | unknown c first after h hlexed =>
    rw [hlexed]
    intro token htoken
    cases htoken
  | endOfText c token after h hkind hlexed =>
    rw [hlexed]
    intro token' htoken'
    obtain rfl := List.mem_singleton.mp htoken'
    exact proper_of_tokenHere h
  | token c token after h hkind hlexed ih =>
    rw [hlexed]
    intro token' htoken'
    rcases List.mem_cons.mp htoken' with rfl | htoken'
    · exact proper_of_tokenHere h
    · exact ih token' htoken'

end Cursor

def Frame.Written : Frame → Prop
  | .operator _ left => left.Written
  | .sign _ | .group => True

section

variable {goal : Level} {limit : Nat} {frames frames' : List Frame}
variable {operand? operand?' : Option Expr} {token : Token} {e : Expr}

theorem written_settle (level : Level) (hframes : ∀ frame ∈ frames, frame.Written)
    (he : e.Written) :
    (∀ frame ∈ (settle level frames e).1, frame.Written) ∧ (settle level frames e).2.Written := by
  induction frames generalizing e with
  | nil => exact ⟨hframes, he⟩
  | cons frame frames ih =>
    unfold settle
    split
    · apply ih fun frame' hframe' => hframes frame' (List.mem_cons_of_mem frame hframe')
      have hframe := hframes frame List.mem_cons_self
      cases frame with
      | sign s => exact he
      | operator op left => exact ⟨hframe, he⟩
      | group => exact he
    · exact ⟨hframes, he⟩

theorem written_of_act_eq_shift (hframes : ∀ frame ∈ frames, frame.Written)
    (hoperand : ∀ e ∈ operand?, e.Written) (htoken : token.Proper)
    (h : act goal limit frames operand? token = .shift frames' operand?') :
    (∀ frame ∈ frames', frame.Written) ∧ ∀ e ∈ operand?', e.Written := by
  have hnone : ∀ e ∈ (none : Option Expr), e.Written := fun e he => by cases he
  cases shifts_of_act h with
  | integer n =>
    refine ⟨hframes, ?_⟩
    rintro _ ⟨⟩
    exact htoken
  | identifier x =>
    refine ⟨hframes, ?_⟩
    rintro _ ⟨⟩
    exact ⟨htoken, rfl, rfl⟩
  | plus hkind => exact ⟨List.forall_mem_cons.mpr ⟨trivial, hframes⟩, hnone⟩
  | minus hkind => exact ⟨List.forall_mem_cons.mpr ⟨trivial, hframes⟩, hnone⟩
  | group hkind => exact ⟨List.forall_mem_cons.mpr ⟨trivial, hframes⟩, hnone⟩
  | @operator _ op e left opened hop hsettle =>
    have hsettled := written_settle op.leftLevel hframes (hoperand e rfl)
    rw [hsettle] at hsettled
    exact ⟨List.forall_mem_cons.mpr ⟨hsettled.2, hsettled.1⟩, hnone⟩
  | @close _ e inner frame opened hkind hsettle =>
    have hsettled := written_settle .expression hframes (hoperand e rfl)
    rw [hsettle] at hsettled
    refine ⟨(List.forall_mem_cons.mp hsettled.1).2, ?_⟩
    rintro _ ⟨⟩
    exact hsettled.2

theorem written_of_act_eq_finish (hframes : ∀ frame ∈ frames, frame.Written)
    (hoperand : ∀ e ∈ operand?, e.Written)
    (h : act goal limit frames operand? token = .finish e) : e.Written := by
  obtain ⟨operand, level, rfl, hsettle⟩ := settle_of_act_eq_finish h
  have hsettled := written_settle level hframes (hoperand operand rfl)
  rw [hsettle] at hsettled
  exact hsettled.2

theorem written_of_readTokens_eq_ok {tokens : List Token}
    (hframes : ∀ frame ∈ frames, frame.Written) (hoperand : ∀ e ∈ operand?, e.Written)
    (htokens : ∀ token ∈ tokens, token.Proper)
    (h : readTokens goal limit frames operand? tokens = .ok e) : e.Written := by
  induction tokens generalizing frames operand? with
  | nil => cases h
  | cons current ahead ih =>
    obtain ⟨_, _, heq, hact⟩ := readTokens_eq_ok h
    cases heq
    rcases hact with hfinish | ⟨frames', operand?', next, more, rfl, hshift, _, hmore⟩
    · exact written_of_act_eq_finish hframes hoperand hfinish
    · obtain ⟨hframes', hoperand'⟩ := written_of_act_eq_shift hframes hoperand
        (htokens current List.mem_cons_self) hshift
      exact ih hframes' hoperand'
        (fun token htoken => htokens token (List.mem_cons_of_mem _ htoken))
        hmore

end

theorem Expr.written_of_parse_eq_ok {limit : Nat} {text : String} {e : Expr}
    (h : parse limit text = .ok e) : e.Written := by
  rw [parse_eq_readTokens limit (unknown_eq_none_of_parse_eq_ok h)] at h
  exact written_of_readTokens_eq_ok (fun _ hframe => absurd hframe List.not_mem_nil)
    (fun _ hoperand => by cases hoperand) (Cursor.proper_of_mem_tokens _) h

end LaurentCalc
