import LaurentCalc.Printing
import LaurentCalc.Proofs.Writing

/-!
# Printing changes no result

What a computation prints on an output that fails is the beginning of what it prints on
a working one. So a traced evaluation has the result of an untraced one if all of its
trace is printed. Otherwise it reports the failure of the output, or that one of the trees
in the trace is too high to be printed.
-/

namespace LaurentCalc

set_option autoImplicit false

namespace Evaluation

variable {evaluation : Evaluation} {count : Nat}

theorem withFailingOutput_of_le (reason : String) (h : evaluation.lines.length ≤ count) :
    evaluation.withFailingOutput count reason = evaluation :=
  if_pos h

theorem withFailingOutput_of_lt (reason : String) (h : count < evaluation.lines.length) :
    evaluation.withFailingOutput count reason =
      ⟨evaluation.lines.take count, .error (.outputFailed reason)⟩ :=
  if_neg (Nat.not_le_of_lt h)

theorem withFailingOutput_after (line : String) (evaluation : Evaluation) (count : Nat)
    (reason : String) :
    (evaluation.after [line]).withFailingOutput (count + 1) reason =
      (evaluation.withFailingOutput count reason).after [line] := by
  by_cases hle : evaluation.lines.length ≤ count
  · have hmore : (evaluation.after [line]).lines.length ≤ count + 1 := Nat.succ_le_succ hle
    rw [withFailingOutput_of_le reason hle, withFailingOutput_of_le reason hmore]
  · have hlt : count < evaluation.lines.length := Nat.lt_of_not_le hle
    have hmore : count + 1 < (evaluation.after [line]).lines.length := Nat.succ_lt_succ hlt
    rw [withFailingOutput_of_lt reason hlt, withFailingOutput_of_lt reason hmore]
    rfl

end Evaluation

def Printer.PrintsLines (printer : Printer) (count : Nat) : Prop := ∀ i < count, printer i = none

section

open Evaluation

variable {printer : Printer} {printed count : Nat} {reason : String}

theorem Printer.printsLines_failingAfter (count : Nat) (reason : String) :
    (failingAfter count reason).PrintsLines count := by
  intro i hi
  exact if_pos hi

theorem Printer.failingAfter_self (count : Nat) (reason : String) :
    failingAfter count reason count = some reason :=
  if_neg (Nat.lt_irrefl count)

/-- What comes to a result on an output comes to it on a working one. -/
theorem Printing.outcome_runOn_working (x : Printing String) {result : String}
    (h : (x.runOn printer printed).outcome = .ok result) :
    (x.runOn .working printed).outcome = .ok result := by
  induction x generalizing printed with
  | done outcome => exact h
  | print line next ih =>
    rw [runOn] at h
    cases hline : printer printed with
    | none =>
      rw [hline] at h
      exact ih h
    | some reason =>
      rw [hline] at h
      cases h

/-- Where all the lines of a computation are printed, the output might as well be a working one. -/
theorem Printing.runOn_eq_working (x : Printing String)
    (hprints : printer.PrintsLines (printed + (x.runOn .working printed).lines.length)) :
    x.runOn printer printed = x.runOn .working printed := by
  induction x generalizing printed with
  | done outcome => rfl
  | print line next ih =>
    have hlength : (next.runOn .working (printed + 1)).lines.length + 1 =
        ((print line next).runOn .working printed).lines.length := rfl
    have hline : printer printed = none := by
      apply hprints
      omega
    have hnext : next.runOn printer (printed + 1) = next.runOn .working (printed + 1) := by
      apply ih
      intro i hi
      apply hprints
      omega
    rw [runOn, runOn, hline, hnext]
    rfl

/-- An output that fails cuts off what a working one prints, and the computation ends there. -/
theorem Printing.runOn_eq_cut (x : Printing String) (hprints : printer.PrintsLines count)
    (hfails : printer count = some reason) (hle : printed ≤ count) :
    x.runOn printer printed =
      (x.runOn .working printed).withFailingOutput (count - printed) reason := by
  induction x generalizing printed with
  | done outcome => exact (withFailingOutput_of_le reason (Nat.zero_le _)).symm
  | print line next ih =>
    rw [runOn, runOn, Printer.working]
    rcases Nat.lt_or_eq_of_le hle with hlt | rfl
    · have hnext := ih (Nat.succ_le_of_lt hlt)
      have hleft : count - printed = count - (printed + 1) + 1 := by omega
      rw [hprints printed hlt, hleft, withFailingOutput_after, ← hnext]
    · rw [hfails, Nat.sub_self]
      have hcut : 0 < ((next.runOn .working (printed + 1)).after [line]).lines.length :=
        Nat.zero_lt_succ _
      exact (withFailingOutput_of_lt reason hcut).symm

/-- The trees that the trace of a text shows can be printed: the one that was read, and that of the
sum to which it reduces. -/
def Printable (limit : Nat) (text : String) : Prop :=
  ∀ e, Expr.parse (callLimit limit) text = .ok e →
    e.height ≤ limit ∧ ∀ p, e.reduce = .ok p → p.toExpr.height ≤ limit

theorem dumpWithin_of_le {e : Expr} {limit : Nat} (h : e.height ≤ limit) :
    e.dumpWithin limit = .ok e.dump :=
  if_pos h

theorem dumpWithin_of_lt {e : Expr} {limit : Nat} (h : limit < e.height) :
    e.dumpWithin limit = .error .nestedTooDeeply :=
  if_neg (Nat.not_le_of_lt h)

theorem flatten_toExpr (p : TermSum) : p.toExpr.flatten = .ok p := by
  rw [Expr.flatten, Expr.toSum_toExpr]
  rfl

variable (limit : Nat) (text : String)

theorem exists_steps_untraced : ∃ outcome, steps limit false text = .done outcome := by
  unfold steps
  cases Expr.parse (callLimit limit) text with
  | error fault => exact ⟨_, rfl⟩
  | ok e =>
    rw [Printing.done_ok_bind]
    cases e.simplifyWithin limit with
    | ok p => exact ⟨.ok p.render, by simp [Except.map, flatten_toExpr]⟩
    | error fault => cases fault <;> exact ⟨_, rfl⟩

theorem evaluateOn_working_untraced :
    evaluateOn .working limit false text = evaluate limit false text := by
  unfold evaluateOn steps evaluate
  cases Expr.parse (callLimit limit) text with
  | error fault => rfl
  | ok e =>
    simp only [Printing.done_ok_bind]
    cases e.simplifyWithin limit with
    | ok p => simp only [Except.map, flatten_toExpr]; rfl
    | error fault => cases fault <;> rfl

/-- Without tracing nothing is printed, so the output does not matter. -/
theorem evaluateOn_untraced (printer : Printer) :
    evaluateOn printer limit false text = evaluate limit false text := by
  obtain ⟨outcome, hsteps⟩ := exists_steps_untraced limit text
  rw [← evaluateOn_working_untraced, evaluateOn, evaluateOn, hsteps]
  rfl

theorem reported_debug (debug debug' : Bool) :
    (evaluate limit debug text).reported text = (evaluate limit debug' text).reported text := by
  have houtcome : (evaluate limit debug text).outcome = (evaluate limit debug' text).outcome := by
    rw [outcome_evaluate, outcome_evaluate]
    simp only [outcome_ofSimplified debug debug']
  rw [reported, reported, houtcome]

variable {limit text}

/-- Step by step, an evaluation comes to what it comes to at once, if its trees can be printed. -/
theorem evaluateOn_working_traced (h : Printable limit text) :
    evaluateOn .working limit true text = evaluate limit true text := by
  unfold evaluateOn steps evaluate
  cases hparse : Expr.parse (callLimit limit) text with
  | error fault => rfl
  | ok e =>
    obtain ⟨hheight, hsum⟩ := h e hparse
    simp only [Printing.done_ok_bind, dumpWithin_of_le hheight, Expr.simplifyWithin_of_le hheight]
    cases hsimplify : e.simplify with
    | ok p =>
      have hprinted := hsum p (Expr.simplify_eq_ok_iff.mp hsimplify)
      simp only [Except.map, dumpWithin_of_le hprinted, flatten_toExpr]
      rfl
    | error fault => cases fault <;> rfl

/-- A traced evaluation ends in front of a tree that is too high to be printed. -/
theorem evaluateOn_working_unprintable (h : ¬Printable limit text) :
    ∃ e, Expr.parse (callLimit limit) text = .ok e ∧
      (limit < e.height ∧
        evaluateOn .working limit true text = ⟨["Parsed AST:"], .error .nestedTooDeeply⟩ ∨
      e.height ≤ limit ∧
        evaluateOn .working limit true text =
          ⟨["Parsed AST:", e.dump, "Simplified AST:"], .error .nestedTooDeeply⟩) := by
  unfold Printable at h
  push Not at h
  obtain ⟨e, hparse, hhigh⟩ := h
  refine ⟨e, hparse, ?_⟩
  unfold evaluateOn steps
  rw [hparse]
  rcases Nat.lt_or_ge limit e.height with hheight | hheight
  · left
    simp only [Printing.done_ok_bind, dumpWithin_of_lt hheight]
    exact ⟨hheight, rfl⟩
  · right
    obtain ⟨p, hreduce, hsum⟩ := hhigh hheight
    simp only [Printing.done_ok_bind, dumpWithin_of_le hheight, Expr.simplifyWithin_of_le hheight,
      Expr.simplify_eq_ok_iff.mpr hreduce, Except.map, dumpWithin_of_lt hsum]
    exact ⟨hheight, rfl⟩

/-- On a working output an evaluation comes to what it comes to at once, unless it is to show a tree
that is too high. -/
theorem outcome_evaluateOn_working (limit : Nat) (debug : Bool) (text : String) :
    (evaluateOn .working limit debug text).outcome = (evaluate limit debug text).outcome ∨
      debug = true ∧ ¬Printable limit text ∧
        (evaluateOn .working limit debug text).outcome = .error .nestedTooDeeply := by
  cases debug with
  | false => exact Or.inl (by rw [evaluateOn_untraced])
  | true =>
    by_cases hprintable : Printable limit text
    · exact Or.inl (by rw [evaluateOn_working_traced hprintable])
    · obtain ⟨e, -, ⟨-, hends⟩ | ⟨-, hends⟩⟩ := evaluateOn_working_unprintable hprintable
      all_goals exact Or.inr ⟨rfl, hprintable, by rw [hends]⟩

/-- Neither the output nor the height of a tree in the trace brings a result about. -/
theorem outcome_evaluate_of_evaluateOn {debug : Bool} {result : String}
    (h : (evaluateOn printer limit debug text).outcome = .ok result) :
    (evaluate limit debug text).outcome = .ok result := by
  have hworking : (evaluateOn .working limit debug text).outcome = .ok result :=
    Printing.outcome_runOn_working _ h
  rcases outcome_evaluateOn_working limit debug text with hsame | ⟨-, -, hdeep⟩
  · rwa [hsame] at hworking
  · cases hdeep.symm.trans hworking

/-- Without tracing an evaluation does not depend on the output. A traced one has the result or the
report of the untraced one, if the output prints all of its trace and the trees in it can be
printed. If they cannot, the trace ends in front of the first that is too high, which nests too
deeply. An output that fails before the end of the trace has printed the lines up to there, and the
failure is reported. -/
theorem traced_evaluation_on_any_output (limit : Nat) (text : String) (printer : Printer) :
    (∀ printer', evaluateOn printer' limit false text = evaluate limit false text) ∧
    (Printable limit text → evaluateOn .working limit true text = evaluate limit true text) ∧
    (printer.PrintsLines (evaluateOn .working limit true text).lines.length →
      (evaluateOn printer limit true text).lines =
        (evaluateOn .working limit true text).lines ∧
      (Printable limit text → (evaluateOn printer limit true text).reported text =
        (evaluateOn printer limit false text).reported text) ∧
      (¬Printable limit text →
        (∃ e, Expr.parse (callLimit limit) text = .ok e ∧
          (limit < e.height ∧
            (evaluateOn printer limit true text).lines = ["Parsed AST:"] ∨
          e.height ≤ limit ∧ (evaluateOn printer limit true text).lines =
            ["Parsed AST:", e.dump, "Simplified AST:"])) ∧
        (evaluateOn printer limit true text).reported text =
          .error ⟨.general, "Expression nested too deeply.", "9999", some text⟩)) ∧
    ∀ count reason, printer.PrintsLines count → printer count = some reason →
      count < (evaluateOn .working limit true text).lines.length →
        (evaluateOn printer limit true text).lines =
          (evaluateOn .working limit true text).lines.take count ∧
        (evaluateOn printer limit true text).reported text =
          .error ⟨.general, Text.trim reason, "9999", some text⟩ := by
  refine ⟨evaluateOn_untraced limit text, evaluateOn_working_traced, ?_, ?_⟩
  · intro hprints
    have hsame : evaluateOn printer limit true text = evaluateOn .working limit true text := by
      apply Printing.runOn_eq_working
      rwa [Nat.zero_add]
    rw [hsame]
    refine ⟨rfl, fun h => ?_, fun h => ?_⟩
    · rw [evaluateOn_working_traced h, evaluateOn_untraced, reported_debug limit text true false]
    · obtain ⟨e, hparse, hends⟩ := evaluateOn_working_unprintable h
      rcases hends with ⟨hheight, hends⟩ | ⟨hheight, hends⟩
      · rw [hends]
        exact ⟨⟨e, hparse, Or.inl ⟨hheight, rfl⟩⟩, rfl⟩
      · rw [hends]
        exact ⟨⟨e, hparse, Or.inr ⟨hheight, rfl⟩⟩, rfl⟩
  · intro count reason hprints hfails hlt
    have hcut : evaluateOn printer limit true text =
        (evaluateOn .working limit true text).withFailingOutput count reason :=
      Printing.runOn_eq_cut _ hprints hfails (Nat.zero_le count)
    rw [hcut, withFailingOutput_of_lt reason hlt]
    exact ⟨rfl, rfl⟩

set_option maxRecDepth 20000 in
/-- An output that fails at the note that the text is echoed, one that prints it, and a limit at
which the tree of the text cannot be printed. -/
theorem traced_echo_on_failing_outputs :
    ((evaluateOn (.failingAfter 2 " disk full ") 600 true "x*y").lines.length = 2 ∧
      (evaluateOn (.failingAfter 2 " disk full ") 600 true "x*y").reported "x*y" =
        .error ⟨.general, "disk full", "9999", some "x*y"⟩) ∧
    ((evaluateOn (.failingAfter 3 " disk full ") 600 true "x*y").lines.length = 3 ∧
      (evaluateOn (.failingAfter 3 " disk full ") 600 true "x*y").reported "x*y" =
        (evaluateOn (.failingAfter 3 " disk full ") 600 false "x*y").reported "x*y") ∧
    (evaluateOn (.failingAfter 1 " disk full ") 1 true "x*y").lines = ["Parsed AST:"] ∧
      (evaluateOn (.failingAfter 1 " disk full ") 1 true "x*y").reported "x*y" =
        .error ⟨.general, "Expression nested too deeply.", "9999", some "x*y"⟩ := by
  let e : Expr := .scaling .mul (.term (.named "x")) (.term (.named "y"))
  have hparse : Expr.parse (callLimit 600) "x*y" = .ok e := by cbv
  have hparse' : Expr.parse (callLimit 1) "x*y" = .ok e := by cbv
  have hreduce : e.reduce = .error .noRule := by cbv
  have hprintable : Printable 600 "x*y" := by
    intro e' he'
    obtain rfl := Except.ok.inj (hparse.symm.trans he')
    refine ⟨by decide, fun p hp => ?_⟩
    cases hreduce.symm.trans hp
  have hunprintable : ¬Printable 1 "x*y" := fun h =>
    absurd (h e hparse').1 (by decide)
  have htrim : Text.trim " disk full " = "disk full" := by decide +kernel
  obtain ⟨-, hworking, -, hcut⟩ :=
    traced_evaluation_on_any_output 600 "x*y" (.failingAfter 2 " disk full ")
  obtain ⟨-, -, hwhole, -⟩ :=
    traced_evaluation_on_any_output 600 "x*y" (.failingAfter 3 " disk full ")
  obtain ⟨-, -, hdeep, -⟩ :=
    traced_evaluation_on_any_output 1 "x*y" (.failingAfter 1 " disk full ")
  have hlength : (evaluateOn .working 600 true "x*y").lines.length = 3 := by
    rw [hworking hprintable, evaluate, hparse]
    simp only [Expr.simplifyWithin_of_le (show e.height ≤ 600 by decide), Expr.simplify, hreduce]
    rfl
  have hdeepLength : (evaluateOn .working 1 true "x*y").lines.length = 1 := by
    obtain ⟨e', he', hends⟩ := evaluateOn_working_unprintable hunprintable
    obtain rfl := Except.ok.inj (hparse'.symm.trans he')
    rcases hends with ⟨-, hends⟩ | ⟨hheight, -⟩
    · rw [hends]
      rfl
    · exact absurd hheight (by decide)
  obtain ⟨hcutLines, hcutReport⟩ := hcut 2 " disk full " (Printer.printsLines_failingAfter _ _)
    (Printer.failingAfter_self _ _) (by rw [hlength]; decide)
  obtain ⟨hlines, hreport, -⟩ :=
    hwhole (by rw [hlength]; exact Printer.printsLines_failingAfter _ _)
  obtain ⟨hdeepLines, -, hdeepReport⟩ :=
    hdeep (by rw [hdeepLength]; exact Printer.printsLines_failingAfter _ _)
  refine ⟨⟨?_, ?_⟩, ⟨?_, hreport hprintable⟩, ?_, (hdeepReport hunprintable).2⟩
  · rw [hcutLines, List.length_take, hlength]
    rfl
  · rw [hcutReport, htrim]
  · rw [hlines, hlength]
  · obtain ⟨⟨e', he', ⟨-, hends⟩ | ⟨hheight, -⟩⟩, -⟩ := hdeepReport hunprintable
    · exact hends
    · obtain rfl := Except.ok.inj (hparse'.symm.trans he')
      exact absurd hheight (by decide)

end

section

/-- A product of ones, with the given number of factors behind the first. -/
def ones : Nat → Expr
  | 0 => .number 1
  | n + 1 => .scaling .mul (ones n) (.number 1)

/-- Such a product added to a quotient by zero. -/
def quotientAndOnes (n : Nat) : Expr :=
  .additive .plus (.scaling .div (.number 1) (.number 0)) (ones n)

def onesText (n : Nat) : List Char := '1' :: (List.replicate n ['*', '1']).flatten

def quotientAndOnesText (n : Nat) : String := String.ofList ("1/0+".toList ++ onesText n)

variable (n : Nat)

theorem height_ones : (ones n).height = n + 1 := by
  induction n with
  | zero => rfl
  | succ n ih =>
    rw [ones, Expr.height, ih]
    exact congrArg (· + 1) (Nat.max_eq_left (Nat.le_add_left 1 n))

theorem nesting_ones_le : (ones n).nesting ≤ 1 := by
  induction n with
  | zero => exact Nat.zero_le 1
  | succ n ih => exact Nat.max_le.mpr ⟨ih, Nat.le_refl 1⟩

theorem writes_one : Writes .atom ['1'] (.number 1) := Writes.integer 1

theorem writes_ones : Writes .term (onesText n) (ones n) := by
  induction n with
  | zero => exact writes_one.widen (by decide)
  | succ n ih =>
    have htext : onesText (n + 1) = onesText n ++ '*' :: ['1'] := by
      simp [onesText, List.replicate_succ']
    rw [htext]
    exact Writes.binary (.scaling .mul) rfl rfl ih (writes_one.widen (by decide))

theorem parse_quotientAndOnes {limit : Nat} (hlimit : 2 ≤ limit) :
    Expr.parse limit (quotientAndOnesText n) = .ok (quotientAndOnes n) := by
  have hzero : Writes .atom ['0'] (.number 0) := Writes.integer 0
  have hquotient : Writes .term ['1', '/', '0'] (.scaling .div (.number 1) (.number 0)) :=
    Writes.binary (.scaling .div) rfl rfl (writes_one.widen (by decide)) (hzero.widen (by decide))
  have htext : (quotientAndOnesText n).toList = ['1', '/', '0'] ++ '+' :: onesText n :=
    String.toList_ofList
  have hwrites : Writes .expression (['1', '/', '0'] ++ '+' :: onesText n) (quotientAndOnes n) :=
    Writes.binary (.additive .plus) rfl rfl (hquotient.widen (by decide)) (writes_ones n)
  have hnesting : (quotientAndOnes n).nesting ≤ 2 :=
    Nat.max_le.mpr ⟨by decide, Nat.succ_le_succ (nesting_ones_le n)⟩
  rw [← htext] at hwrites
  exact hwrites.parse_eq_ok (Nat.le_trans hnesting hlimit)

theorem reduce_quotient : (Expr.scaling .div (.number 1) (.number 0)).reduce =
    .error (.divisionByZero 1) := by
  cbv

theorem reduce_quotientAndOnes : (quotientAndOnes n).reduce = .error (.divisionByZero 1) := by
  rw [quotientAndOnes, Expr.reduce, reduce_quotient]
  rfl

/-- The quotient fails before the product is reduced. -/
theorem overruns_quotientAndOnes (k : Nat) :
    Expr.overruns (k + 3) (quotientAndOnes n) = false := by
  have hrule : (Expr.distribute .div (.number 1) (.number 0)).lacksRule = false := by cbv
  have hquotient :
      Expr.overruns (k + 2) (.scaling .div (.number 1) (.number 0)) = false := by
    rw [Expr.overruns, Expr.overrunsAcross, Expr.overrunsSides, hrule]
    simp
  rw [quotientAndOnes, Expr.overruns, hquotient, reduce_quotient]
  rfl

variable {n} {limit : Nat} (hlimit : 2 ≤ limit)
include hlimit

theorem outcome_quotientAndOnes :
    (evaluate limit false (quotientAndOnesText n)).outcome = .error (.divisionByZero 1) := by
  have hle := le_callLimit limit
  have hparse := parse_quotientAndOnes n (Nat.le_trans hlimit hle)
  have hsimplify : (quotientAndOnes n).simplify = .error (.divisionByZero 1) := by
    rw [Expr.simplify, reduce_quotientAndOnes]
    rfl
  obtain ⟨k, hcalls⟩ : ∃ k, callLimit limit = k + 3 := by
    refine ⟨callLimit limit - 3, ?_⟩
    rw [callLimit]
    omega
  have hfits : (quotientAndOnes n).goesTooDeep limit = false := by
    rw [Expr.goesTooDeep, hsimplify, hcalls, overruns_quotientAndOnes]
    rfl
  rw [outcome_evaluate, hparse, ok_bind, hfits, hsimplify]
  rfl

theorem traced_quotientAndOnes (hn : limit ≤ n) :
    evaluateOn .working limit true (quotientAndOnesText n) =
      ⟨["Parsed AST:"], .error .nestedTooDeeply⟩ := by
  have hparse := parse_quotientAndOnes n (Nat.le_trans hlimit (le_callLimit limit))
  have hheight : limit < (quotientAndOnes n).height := by
    rw [quotientAndOnes, Expr.height, height_ones]
    omega
  have hunprintable : ¬Printable limit (quotientAndOnesText n) := fun h =>
    Nat.not_lt.mpr (h _ hparse).1 hheight
  obtain ⟨e, he, hends⟩ := evaluateOn_working_unprintable hunprintable
  obtain rfl := Except.ok.inj (hparse.symm.trans he)
  rcases hends with ⟨-, hends⟩ | ⟨hle, -⟩
  · exact hends
  · exact absurd hheight (Nat.not_lt.mpr hle)

omit hlimit

/-- A quotient by zero is reported as such, whatever stands behind it, unless a trace is to show all
of the tree and it is too high to be printed. -/
theorem traced_evaluation_hides_quotient :
    (evaluateOn .working nestingLimit false (quotientAndOnesText 5000)).reported
        (quotientAndOnesText 5000) =
      .error ⟨.divisionByZero, "Division by zero: 1 / 0", "3003",
        some (quotientAndOnesText 5000)⟩ ∧
    (evaluateOn .working nestingLimit true (quotientAndOnesText 5000)).lines = ["Parsed AST:"] ∧
    (evaluateOn .working nestingLimit true (quotientAndOnesText 5000)).reported
        (quotientAndOnesText 5000) =
      .error ⟨.general, "Expression nested too deeply.", "9999",
        some (quotientAndOnesText 5000)⟩ := by
  have hlimit : 2 ≤ nestingLimit := by decide
  have houtcome := outcome_quotientAndOnes hlimit (n := 5000)
  have htraced := traced_quotientAndOnes hlimit (show nestingLimit ≤ 5000 by decide)
  generalize quotientAndOnesText 5000 = text at *
  rw [evaluateOn_untraced, htraced]
  refine ⟨?_, rfl, rfl⟩
  rw [Evaluation.reported, houtcome]
  rfl

end

end LaurentCalc
