import LaurentCalc.Console
import LaurentCalc.Proofs.FixedPoint
import LaurentCalc.Proofs.Printing
import LaurentCalc.Proofs.UnknownCharacters

/-!
# Error lines

A line about a fault begins with a mark that no result can begin with: the mark has an
unknown character, and every result, an echoed text included, can be scanned to its end.
So the console can tell results from lines about faults, and copies all results and
nothing else.
-/

namespace LaurentCalc

set_option autoImplicit false

theorem isErrorLine_line (report : Report) : isErrorLine report.line = true := by
  have hline : report.line.toList = errorMark.toList ++
      ((describeCode report.code).1 ++
        if (describeCode report.code).2 then report.message else "").toList := by
    rw [← String.toList_append, ← String.append_assoc]
    rfl
  rw [isErrorLine, hline]
  exact List.isPrefixOf_iff_prefix.mpr (List.prefix_append _ _)

theorem isErrorLine_eq_false_of_known {line : String}
    (h : ∀ c ∈ line.toList, Text.isKnown c = true) : isErrorLine line = false := by
  rw [Bool.eq_false_iff]
  intro hmark
  obtain ⟨rest, hrest⟩ := List.isPrefixOf_iff_prefix.mp hmark
  have hcolon : ':' ∈ line.toList := by
    rw [← hrest]
    exact List.mem_append_left _ (by decide)
  have hunknown : Text.isKnown ':' = false := by decide +kernel
  rw [h ':' hcolon] at hunknown
  cases hunknown

section

variable {printer : Printer} {limit : Nat} {debug : Bool} {text result : String}

/-- A result is itself a text with an expression. -/
theorem exists_parse_of_result (h : (evaluate limit debug text).outcome = .ok result) :
    ∃ limit' e, Expr.parse limit' result = .ok e := by
  obtain ⟨e, hparse, hresult⟩ := parse_of_outcome_evaluate h
  unfold Evaluation.ofSimplified at hresult
  split at hresult
  · next p hsimplify =>
    obtain rfl := Except.ok.inj hresult
    have hspelled : p.Over Spelled := Expr.over_reduce (Expr.written_of_parse_eq_ok hparse).over
      (Expr.simplify_eq_ok_iff.mp hsimplify)
    have hphrase :=
      (Collected.writes_phrase (TermSum.name_of_mem_collected hspelled)).parseWithin_eq_ok
      (Nat.le_refl p.render.length)
    exact ⟨p.render.length, p.collected.phrase, (Expr.parseWithin_eq_ok_iff.mp hphrase).1⟩
  · obtain rfl := Except.ok.inj hresult
    exact ⟨_, e, hparse⟩
  · cases hresult

theorem isErrorLine_result (h : (evaluateOn printer limit debug text).outcome = .ok result) :
    isErrorLine result = false := by
  obtain ⟨limit', e, hparse⟩ := exists_parse_of_result (outcome_evaluate_of_evaluateOn h)
  exact isErrorLine_eq_false_of_known (Expr.isKnown_of_parse_eq_ok hparse)

theorem isErrorLine_answer (printer : Printer) (limit : Nat) (debug : Bool) (text : String) :
    isErrorLine (evaluateOn printer limit debug text).answer =
      match (evaluateOn printer limit debug text).outcome with
      | .ok _ => false
      | .error _ => true := by
  unfold Evaluation.answer
  cases houtcome : (evaluateOn printer limit debug text).outcome with
  | ok result => exact isErrorLine_result houtcome
  | error fault => exact isErrorLine_line fault.report

end

def Clipboard.Reliable (clipboard : Clipboard) : Prop := ∀ attempt, clipboard attempt = none

namespace Console

variable (limit : Nat) (options : Options) {clipboard : Clipboard}

/-- The dialogue after an evaluation has been shown, before anything is copied. -/
def Dialogue.present (d : Dialogue) (evaluation : Evaluation) : Dialogue :=
  { d with
    output := d.output ++ evaluation.lines.map Output.traced ++ [.said (evaluation.answer ++ "\n")]
    answered := d.answered + 1 }

theorem Dialogue.copying_copy (hclipboard : clipboard.Reliable) (d : Dialogue) (result : String) :
    (d.copy clipboard result).copying = d.copying := by
  unfold copy
  split
  · rw [hclipboard d.attempts]
  · rfl

theorem Dialogue.copied_copy (hclipboard : clipboard.Reliable) (d : Dialogue) (result : String) :
    (d.copy clipboard result).copied = d.copied ++ if d.copying then [result] else [] := by
  unfold copy
  split
  · rw [hclipboard d.attempts]
  · exact (List.append_nil _).symm

/-- A result is handed to the clipboard, and a line about a fault is not. -/
theorem Dialogue.answer_eq (clipboard : Clipboard) (d : Dialogue) (problem : String) :
    d.answer limit options clipboard problem =
      match (evaluateOn .working limit options.debug problem).outcome with
      | .ok result =>
        (d.present (evaluateOn .working limit options.debug problem)).copy clipboard result
      | .error _ => d.present (evaluateOn .working limit options.debug problem) := by
  have hanswer : d.answer limit options clipboard problem =
      if isErrorLine (evaluateOn .working limit options.debug problem).answer then
        d.present (evaluateOn .working limit options.debug problem)
      else (d.present (evaluateOn .working limit options.debug problem)).copy clipboard
        (evaluateOn .working limit options.debug problem).answer := rfl
  rw [hanswer, isErrorLine_answer, Evaluation.answer]
  cases (evaluateOn .working limit options.debug problem).outcome <;> rfl

def results (limit : Nat) (debug : Bool) (problems : List String) : List String :=
  (problems.filter fun problem => !Text.allBlank problem).filterMap fun problem =>
    (evaluateOn .working limit debug problem).outcome.toOption

def problems (input : String) : List String :=
  (lines input.toList).map fun line => problem (String.ofList line)

theorem results_cons (debug : Bool) (problem : String) (more : List String) :
    results limit debug (problem :: more) =
      results limit debug [problem] ++ results limit debug more := by
  unfold results
  rw [← List.filterMap_append, ← List.filter_append, List.singleton_append]

theorem results_of_blank {debug : Bool} {problem : String} (h : Text.allBlank problem = true) :
    results limit debug [problem] = [] := by
  rw [results, List.filter_cons_of_neg (by rw [h]; exact Bool.false_ne_true)]
  rfl

theorem results_of_answered {debug : Bool} {problem : String} (h : ¬Text.allBlank problem = true) :
    results limit debug [problem] =
      (evaluateOn .working limit debug problem).outcome.toOption.toList := by
  rw [results, List.filter_cons_of_pos (by rw [Bool.eq_false_iff.mpr h]; rfl)]
  cases houtcome : (evaluateOn .working limit debug problem).outcome with
  | ok result => simp [houtcome, Except.toOption]
  | error fault => simp [houtcome, Except.toOption]

/-- With a clipboard that never fails, a reply copies the result if there is one and if that is
wanted. -/
theorem Dialogue.copied_respond (hclipboard : clipboard.Reliable) (d : Dialogue)
    (line : String) :
    (d.respond limit options clipboard line).copying = d.copying ∧
    (d.respond limit options clipboard line).copied =
      d.copied ++ if d.copying then results limit options.debug [problem line] else [] := by
  unfold respond reply
  by_cases hblank : Text.allBlank (problem line) = true
  · rw [if_pos hblank, results_of_blank limit hblank, ite_self, List.append_nil]
    exact ⟨rfl, rfl⟩
  · rw [if_neg hblank, answer_eq, results_of_answered limit hblank]
    cases (evaluateOn .working limit options.debug (problem line)).outcome with
    | error fault =>
      constructor
      · rfl
      · simp only [Except.toOption, Option.toList_none, ite_self, List.append_nil]
        rfl
    | ok result =>
      constructor
      · exact copying_copy hclipboard _ _
      · exact copied_copy hclipboard _ _

theorem Dialogue.copied_foldl (hclipboard : clipboard.Reliable) (texts : List String)
    (d : Dialogue) :
    (texts.foldl (respond limit options clipboard) d).copied =
      d.copied ++ if d.copying then results limit options.debug (texts.map problem) else [] := by
  induction texts generalizing d with
  | nil => cases d.copying <;> simp [results]
  | cons line texts ih =>
    obtain ⟨hcopying, hcopied⟩ := d.copied_respond limit options hclipboard line
    have hresults := results_cons limit options.debug (problem line) (texts.map problem)
    rw [List.foldl_cons, ih, hcopying, hcopied, List.map_cons, hresults, List.append_assoc]
    cases d.copying <;> simp

theorem copied_run (hclipboard : clipboard.Reliable) (input : String) :
    (run limit options clipboard input).copied =
      if options.copying then results limit options.debug (problems input) else [] := by
  have hfold := Dialogue.copied_foldl limit options hclipboard
    ((lines input.toList).map String.ofList) (.start options)
  rw [List.map_map] at hfold
  exact hfold

end Console

/-- A line begins with the mark of faults exactly if the evaluation reports one, and no result does.
So the console hands exactly the results to the clipboard, and one that never fails is given all of
them in order. -/
theorem error_lines_unambiguous :
    (∀ (printer : Printer) (limit : Nat) (debug : Bool) (text : String),
      isErrorLine (evaluateOn printer limit debug text).answer = true ↔
        ∃ report, (evaluateOn printer limit debug text).reported text = .error report) ∧
    (∀ (printer : Printer) (limit : Nat) (debug : Bool) (text result : String),
      (evaluateOn printer limit debug text).reported text = .ok result →
        isErrorLine result = false) ∧
    (∀ (limit : Nat) (options : Console.Options) (clipboard : Clipboard) (d : Console.Dialogue)
      (problem : String), d.answer limit options clipboard problem =
        match (evaluateOn .working limit options.debug problem).outcome with
        | .ok result =>
          (d.present (evaluateOn .working limit options.debug problem)).copy clipboard result
        | .error _ => d.present (evaluateOn .working limit options.debug problem)) ∧
    ∀ (limit : Nat) (options : Console.Options) (clipboard : Clipboard) (input : String),
      clipboard.Reliable → (Console.run limit options clipboard input).copied =
        if options.copying then
          Console.results limit options.debug (Console.problems input)
        else [] := by
  refine ⟨fun printer limit debug text => ?_, fun printer limit debug text result h => ?_,
    fun limit options clipboard d problem => d.answer_eq limit options clipboard problem,
    fun limit options clipboard input h => Console.copied_run limit options h input⟩
  · simp only [isErrorLine_answer, Evaluation.reported_eq_error_iff]
    cases (evaluateOn printer limit debug text).outcome <;> simp
  · exact isErrorLine_result (Evaluation.reported_eq_ok_iff.mp h)

set_option maxRecDepth 20000 in
theorem copied_run_echo_and_fault :
    (Console.run 600 ⟨">>> ", true, false⟩ (fun _ => none) "x+x\n\n1/0\nx*y").copied =
      ["2*x", "x*y"] := by
  have hresults : Console.results 600 false (Console.problems "x+x\n\n1/0\nx*y") =
      ["2*x", "x*y"] := by cbv
  obtain ⟨-, -, -, hrun⟩ := error_lines_unambiguous
  rw [hrun 600 ⟨">>> ", true, false⟩ (fun _ => none) _ fun _ => rfl, ← hresults]
  rfl

end LaurentCalc
