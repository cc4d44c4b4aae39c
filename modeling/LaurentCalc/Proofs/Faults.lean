import LaurentCalc.Proofs.Parsing
import LaurentCalc.Proofs.Printing
import LaurentCalc.Proofs.Termination

/-!
# Faults of an evaluation

Whatever a tree is, rewriting it leads to a sum of terms, which can be flattened and
rendered, or to one of the obstacles. So an evaluation gives a result, or one of four
reports that name the text.
-/

namespace LaurentCalc

set_option autoImplicit false

open Course (Ends)

namespace Expr

/-- What an evaluation makes of the outcome of rewriting the tree of a text: a tree is flattened and
rendered, and a text that no rule applies to is its own result. -/
def conclude (text : String) (e : Expr) : Attempt Expr → Except Fault String
  | .ok t =>
    match t.toSum with
    | .ok p => .ok p.render
    | .error part => .error (.notFlat part)
  | .error .noRule => .ok text
  | .error obstacle => .error (.ofObstacle e obstacle)

/-- The outcomes of rewriting: no rule, a quotient by zero, zero to the power zero, or a tree that
is flat and therefore flattened to a sum. -/
inductive Clean : Attempt Expr → Prop where
  | noRule : Clean (.error .noRule)
  | divisionByZero (numerator : Int) : Clean (.error (.divisionByZero numerator))
  | zeroToZero (power : Expr) : Clean (.error (.zeroToZero power))
  | flat {t : Expr} {p : TermSum} (hflat : t.isFlat = true) (hsum : t.toSum = .ok p) : Clean (.ok t)

theorem clean_tree (x : Attempt TermSum) : Clean x.tree := by
  cases x with
  | ok p => exact .flat (isFlat_toExpr p) (toSum_toExpr p)
  | error obstacle =>
    cases obstacle with
    | noRule => exact .noRule
    | divisionByZero numerator => exact .divisionByZero numerator
    | zeroToZero power => exact .zeroToZero power

variable {limit : Nat} {debug : Bool} {text : String} {e : Expr} {fault : Fault}
variable {outcome : Attempt Expr} {n : Nat}

theorem conclude_tree (debug : Bool) (text : String) (e : Expr) :
    (Evaluation.ofSimplified debug text e.simplify).outcome = e.conclude text e.reduce.tree := by
  unfold Evaluation.ofSimplified simplify
  cases e.reduce with
  | ok p => simp only [Attempt.tree, ok_bind, pure_eq_ok, conclude, toSum_toExpr]
  | error obstacle => cases obstacle <;> rfl

theorem fault_of_conclude (houtcome : Clean outcome) (h : e.conclude text outcome = .error fault) :
    (∃ numerator, fault = .divisionByZero numerator) ∨ ∃ power, fault = .zeroToZero power := by
  cases houtcome with
  | noRule => cases h
  | divisionByZero numerator =>
    cases h
    exact Or.inl ⟨numerator, rfl⟩
  | zeroToZero power =>
    cases h
    exact Or.inr ⟨power, rfl⟩
  | flat _ hsum =>
    rw [conclude, hsum] at h
    cases h

theorem fault_of_parse (h : parse limit text = .error fault) :
    (∃ unknown, fault = .unknownCharacter unknown) ∨ (∃ f, fault = .malformed f) ∨
      fault = .nestedTooDeeply ∧ limit < text.length := by
  rcases parse_cases limit text with ⟨hparse, hlt⟩ | ⟨_, _, _, hparse, _⟩ | ⟨unknown, hparse, _⟩ |
    ⟨f, hparse, _⟩
  all_goals rw [hparse] at h; cases h
  · exact Or.inr (Or.inr ⟨rfl, hlt⟩)
  · exact Or.inl ⟨unknown, rfl⟩
  · exact Or.inr (Or.inl ⟨f, rfl⟩)

end Expr

/-- The kinds of report that an evaluation may end with, each with its code. -/
def documentedReports : List (ReportKind × String) :=
  [(.unknownCharacter, "3100"), (.malformed, "3101"), (.divisionByZero, "3003"),
    (.zeroToZero, "3102")]

section

variable {limit : Nat} {debug : Bool} {text : String} {fault : Fault}

theorem outcome_evaluate_eq_conclude (limit : Nat) (debug : Bool) (text : String) :
    (evaluate limit debug text).outcome =
      Expr.parse (callLimit limit) text >>= fun e =>
        if e.goesTooDeep limit then .error .nestedTooDeeply
        else e.conclude text (Rule.reduceTree e) := by
  rw [outcome_evaluate]
  exact congrArg _ (funext fun e => by rw [Expr.conclude_tree]; rfl)

/-- A fault of an evaluation is one of the four that are documented, or the limit was exceeded. -/
theorem fault_of_evaluate (h : (evaluate limit debug text).outcome = .error fault) :
    (fault.kind, fault.code) ∈ documentedReports ∨
      fault = .nestedTooDeeply ∧ limit < text.length := by
  rw [outcome_evaluate_eq_conclude] at h
  rcases bind_eq_error_iff.mp h with hparse | ⟨e, hparse, hconclude⟩
  · rcases Expr.fault_of_parse hparse with ⟨unknown, rfl⟩ | ⟨f, rfl⟩ | ⟨rfl, hlt⟩
    · exact Or.inl (.head _)
    · exact Or.inl (.tail _ (.head _))
    · exact Or.inr ⟨rfl, Nat.lt_of_le_of_lt (le_callLimit limit) hlt⟩
  · split at hconclude
    · next hdeep =>
      obtain rfl := Except.error.inj hconclude
      have hheight := Expr.lt_height_of_goesTooDeep hdeep
      exact Or.inr ⟨rfl, Nat.lt_of_lt_of_le hheight (Expr.height_le_length hparse)⟩
    · left
      rcases Expr.fault_of_conclude (Expr.clean_tree e.reduce) hconclude with
        ⟨numerator, rfl⟩ | ⟨power, rfl⟩
      · exact .tail _ (.tail _ (.head _))
      · exact .tail _ (.tail _ (.tail _ (.head _)))

/-- Every text has a result or one of the four documented reports, which names the text, unless the
limit is exceeded. A traced evaluation comes to the same, as long as the trees that it prints are no
higher than the limit. The outcome is that of rewriting the tree by its rules, then flattening and
rendering, unless rewriting goes too deep, for which the tree has to be higher than the limit; and
rewriting comes to a flat sum, no rule or one of the two arithmetic obstacles, whatever the tree
is. -/
theorem evaluate_reported :
    (∀ (limit : Nat) (debug : Bool) (text : String),
      (∃ result, (evaluate limit debug text).reported text = .ok result) ∨
      (∃ report, (evaluate limit debug text).reported text = .error report ∧
        (report.kind, report.code) ∈ documentedReports ∧ report.equation? = some text) ∨
      (evaluate limit debug text).outcome = .error .nestedTooDeeply ∧ limit < text.length) ∧
    (∀ (limit : Nat) (debug : Bool) (text : String),
      (evaluateOn .working limit debug text).outcome = (evaluate limit debug text).outcome ∨
      debug = true ∧ ¬Printable limit text ∧
        (evaluateOn .working limit debug text).outcome = .error .nestedTooDeeply) ∧
    (∀ (limit : Nat) (debug : Bool) (text : String),
      (evaluate limit debug text).outcome =
        Expr.parse (callLimit limit) text >>= fun e =>
          if e.goesTooDeep limit then .error .nestedTooDeeply
          else e.conclude text (Rule.reduceTree e)) ∧
    (∀ (limit : Nat) (e : Expr), e.goesTooDeep limit = true → limit < e.height) ∧
    ∀ e : Expr, Expr.Clean (Rule.reduceTree e) ∧
      ∃ n, ∀ m outcome, Ends e.rule m outcome ↔ m = n ∧ outcome = Rule.reduceTree e := by
  refine ⟨fun limit debug text => ?_, outcome_evaluateOn_working, outcome_evaluate_eq_conclude,
    fun _ _ => Expr.lt_height_of_goesTooDeep, fun e => ?_⟩
  · cases houtcome : (evaluate limit debug text).outcome with
    | ok result =>
      left
      exact ⟨result, by rw [Evaluation.reported, houtcome]; rfl⟩
    | error fault =>
      right
      rcases fault_of_evaluate houtcome with hdocumented | ⟨rfl, hlt⟩
      · left
        refine ⟨fault.report.about text, ?_, hdocumented, rfl⟩
        rw [Evaluation.reported, houtcome]
        rfl
      · exact Or.inr ⟨rfl, hlt⟩
  · exact ⟨Expr.clean_tree e.reduce, e.exists_ends_iff⟩

end

end LaurentCalc
