import LaurentCalc.Proofs.ErrorLines

/-!
# Lines of a dialogue

The console reads its input line by line until it ends or is interrupted. What it says is
put together from the replies to the single lines, each behind a prompt, and every reply
depends on its own line only: no error, echo or blank line matters to any other line.
-/

namespace LaurentCalc

set_option autoImplicit false

namespace Console

/-- A text cut behind every line break in it; the last line may go unended. -/
inductive Cut : List Char → List (List Char) → Prop where
  | done : Cut [] []
  | unended {line : List Char} (hne : line ≠ []) (h : '\n' ∉ line) : Cut line [line]
  | ended {line rest : List Char} {ls : List (List Char)} (h : '\n' ∉ line) (hrest : Cut rest ls) :
      Cut (line ++ '\n' :: rest) ((line ++ ['\n']) :: ls)

/-- What is said in reply to a problem: its answer on a line of its own, or nothing if it is
blank. -/
def replyText (limit : Nat) (debug : Bool) (problem : String) : String :=
  if Text.allBlank problem then "" else (evaluateOn .working limit debug problem).answer ++ "\n"

section Cutting

variable {line rest : List Char} {ls : List (List Char)}

theorem cutLine_of_not_mem (h : '\n' ∉ line) : cutLine line = (line, []) := by
  induction line with
  | nil => rfl
  | cons c line ih =>
    rw [List.mem_cons, not_or] at h
    rw [cutLine, if_neg (Ne.symm h.1), ih h.2]

theorem cutLine_append (h : '\n' ∉ line) :
    cutLine (line ++ '\n' :: rest) = (line ++ ['\n'], rest) := by
  induction line with
  | nil => exact if_pos rfl
  | cons c line ih =>
    rw [List.mem_cons, not_or] at h
    rw [List.cons_append, cutLine, if_neg (Ne.symm h.1), ih h.2]
    rfl

theorem lines_of_not_mem (hne : line ≠ []) (h : '\n' ∉ line) : lines line = [line] := by
  induction line with
  | nil => exact absurd rfl hne
  | cons c line ih =>
    rw [List.mem_cons, not_or] at h
    rw [lines, if_neg (Ne.symm h.1)]
    cases line with
    | nil => rfl
    | cons c' line => rw [ih (List.cons_ne_nil c' line) h.2]

theorem lines_append (h : '\n' ∉ line) : lines (line ++ '\n' :: rest) = line :: lines rest := by
  induction line with
  | nil => exact if_pos rfl
  | cons c line ih =>
    rw [List.mem_cons, not_or] at h
    rw [List.cons_append, lines, if_neg (Ne.symm h.1), ih h.2]

/-- Every text can be cut into lines. -/
theorem exists_cut (cs : List Char) : ∃ ls, Cut cs ls := by
  induction hlength : cs.length using Nat.strong_induction_on generalizing cs with
  | _ n ih =>
    by_cases hbreak : '\n' ∈ cs
    · obtain ⟨line, rest, rfl, hline⟩ := List.eq_append_cons_of_mem hbreak
      have hlt : rest.length < n := by
        rw [← hlength, List.length_append, List.length_cons]
        omega
      obtain ⟨ls, hls⟩ := ih rest.length hlt rest rfl
      exact ⟨_, .ended hline hls⟩
    · by_cases hne : cs = []
      · exact ⟨[], hne ▸ .done⟩
      · exact ⟨[cs], .unended hne hbreak⟩

/-- The line break at the end of a line is no part of the problem. -/
theorem problem_ended (line : List Char) :
    problem (String.ofList (line ++ ['\n'])) = problem (String.ofList line) := by
  unfold problem Text.dropTrailing
  rw [String.toList_ofList, String.toList_ofList, List.reverse_append, List.reverse_singleton,
    List.singleton_append, List.dropWhile_cons_of_pos (by decide)]

end Cutting

section Replies

variable {limit : Nat} {options : Options} {clipboard : Clipboard} {d : Dialogue}

theorem Dialogue.said_say (d : Dialogue) (text : String) : (d.say text).said = d.said ++ text := by
  simp [said, say, Output.saidText]

/-- Traced lines are not said. -/
theorem Dialogue.said_present (d : Dialogue) (evaluation : Evaluation) :
    (d.present evaluation).said = d.said ++ (evaluation.answer ++ "\n") := by
  have htraced : String.join ((evaluation.lines.map Output.traced).map Output.saidText) = "" := by
    induction evaluation.lines with
    | nil => rfl
    | cons line more ih =>
      rw [List.map_cons, List.map_cons, String.join_cons, ih]
      rfl
  simp only [said, present, List.map_append, String.join_append, htraced]
  simp [Output.saidText]

theorem Dialogue.copy_of_reliable (hclipboard : clipboard.Reliable) (d : Dialogue)
    (result : String) :
    (d.copy clipboard result).output = d.output ∧
      (d.copy clipboard result).answered = d.answered := by
  unfold copy
  split
  · rw [hclipboard d.attempts]
    exact ⟨rfl, rfl⟩
  · exact ⟨rfl, rfl⟩

theorem Dialogue.said_answer (limit : Nat) (options : Options) (hclipboard : clipboard.Reliable)
    (d : Dialogue) (problem : String) :
    (d.answer limit options clipboard problem).said =
        d.said ++ ((evaluateOn .working limit options.debug problem).answer ++ "\n") ∧
      (d.answer limit options clipboard problem).answered = d.answered + 1 := by
  rw [answer_eq, ← said_present]
  cases (evaluateOn .working limit options.debug problem).outcome with
  | error fault => exact ⟨rfl, rfl⟩
  | ok result =>
    obtain ⟨houtput, hanswered⟩ := copy_of_reliable hclipboard
      (d.present (evaluateOn .working limit options.debug problem)) result
    constructor
    · unfold said
      rw [houtput]
    · exact hanswered

/-- A reply adds what is said to its own line, and counts unless the line is blank. -/
theorem Dialogue.said_reply (limit : Nat) (options : Options) (hclipboard : clipboard.Reliable)
    (d : Dialogue) (line : String) :
    (d.reply limit options clipboard line).said =
        d.said ++ replyText limit options.debug (problem line) ∧
      (d.reply limit options clipboard line).answered =
        d.answered + if Text.allBlank (problem line) then 0 else 1 := by
  unfold reply replyText
  split
  · exact ⟨String.append_empty.symm, rfl⟩
  · exact said_answer limit options hclipboard d (problem line)

/-- A line adds the prompt and the reply to it. -/
theorem Dialogue.said_respond (limit : Nat) (options : Options) (hclipboard : clipboard.Reliable)
    (d : Dialogue) (line : List Char) :
    (d.respond limit options clipboard (String.ofList line)).said = d.said ++
        (options.prompt ++ replyText limit options.debug (problem (String.ofList line))) ∧
      (d.respond limit options clipboard (String.ofList line)).answered = d.answered +
        ([line].filter fun line => !Text.allBlank (problem (String.ofList line))).length := by
  obtain ⟨hsaid, hanswered⟩ := (d.say options.prompt).said_reply limit options hclipboard
    (String.ofList line)
  constructor
  · rw [respond, hsaid, said_say, String.append_assoc]
  · rw [respond, hanswered]
    by_cases hblank : Text.allBlank (problem (String.ofList line)) = true
    · simp [hblank, say]
    · simp [hblank, say]

theorem Dialogue.said_close (d : Dialogue) (options : Options) :
    (d.close options).said = d.said ++ options.prompt ++ "\n" ∧
      (d.close options).answered = d.answered := by
  constructor
  · rw [close, said_say, said_say]
  · rfl

theorem Dialogue.respond_ended (d : Dialogue) (line : List Char) :
    d.respond limit options clipboard (String.ofList (line ++ ['\n'])) =
      d.respond limit options clipboard (String.ofList line) := by
  unfold respond reply
  rw [problem_ended]

end Replies

section Reading

variable {limit : Nat} {options : Options} {clipboard : Clipboard} {d : Dialogue}
variable {rest line : List Char} {ls : List (List Char)} {interrupted : Bool}

theorem Dialogue.converse_nil :
    d.converse limit options clipboard ⟨[], interrupted⟩ = d.close options := by
  have hread : (Input.mk [] interrupted).readLine =
      (if interrupted then .interruption else .endOfInput, ⟨[], interrupted⟩) := rfl
  rw [converse]
  split
  · next left h =>
    rw [hread] at h
    split at h <;> cases h
  · rfl
  · rfl

/-- A line that is read is replied to, and the dialogue goes on behind it. -/
theorem Dialogue.converse_line {left : Input} {input : Input}
    (hread : input.readLine = (.line line, left)) :
    d.converse limit options clipboard input =
      (d.respond limit options clipboard (String.ofList line)).converse limit options clipboard
        left := by
  rw [converse]
  split
  · next line' left' h =>
    rw [hread] at h
    cases h
    rfl
  · next h =>
    rw [hread] at h
    cases h
  · next h =>
    rw [hread] at h
    cases h

theorem readLine_of_ne_nil (interrupted : Bool) (h : rest ≠ []) :
    (Input.mk rest interrupted).readLine =
      (.line (cutLine rest).1, ⟨(cutLine rest).2, interrupted⟩) := by
  cases rest with
  | nil => exact absurd rfl h
  | cons c rest => rfl

theorem Dialogue.converse_unended (hne : line ≠ []) (h : '\n' ∉ line) :
    d.converse limit options clipboard ⟨line, interrupted⟩ =
      (d.respond limit options clipboard (String.ofList line)).close options := by
  have hread := readLine_of_ne_nil interrupted hne
  rw [cutLine_of_not_mem h] at hread
  rw [converse_line hread, converse_nil]

theorem Dialogue.converse_ended (h : '\n' ∉ line) :
    d.converse limit options clipboard ⟨line ++ '\n' :: rest, interrupted⟩ =
      (d.respond limit options clipboard (String.ofList (line ++ ['\n']))).converse limit options
        clipboard ⟨rest, interrupted⟩ := by
  have hread := readLine_of_ne_nil interrupted
    (List.append_ne_nil_of_right_ne_nil line (List.cons_ne_nil '\n' rest))
  rw [cutLine_append h] at hread
  exact converse_line hread

/-- Reading line by line comes to the same as going through all lines, however the input ends. -/
theorem converse_eq_run (input : String) :
    (Dialogue.start options).converse limit options clipboard ⟨input.toList, interrupted⟩ =
      run limit options clipboard input := by
  -- Said of every dialogue so far, since the induction is on the lines that are left.
  have hfold : ∀ d cs ls, Cut cs ls → d.converse limit options clipboard ⟨cs, interrupted⟩ =
      (((lines cs).map String.ofList).foldl (Dialogue.respond limit options clipboard) d).close
        options := by
    intro d cs ls hcut
    induction hcut generalizing d with
    | done =>
      rw [Dialogue.converse_nil, lines, List.map_nil, List.foldl_nil]
    | unended hne h =>
      rw [Dialogue.converse_unended hne h, lines_of_not_mem hne h, List.map_singleton,
        List.foldl_cons, List.foldl_nil]
    | ended h hrest ih =>
      rw [Dialogue.converse_ended h, ih, lines_append h, Dialogue.respond_ended, List.map_cons,
        List.foldl_cons]
  obtain ⟨ls, hls⟩ := exists_cut input.toList
  exact hfold _ _ _ hls

/-- All that is said, line by line, and how many lines are answered. -/
theorem Cut.said_converse (limit : Nat) (options : Options) (interrupted : Bool)
    (hcut : Cut rest ls) (hclipboard : clipboard.Reliable) (d : Dialogue) :
    (d.converse limit options clipboard ⟨rest, interrupted⟩).said =
        d.said ++ String.join (ls.map fun line =>
          options.prompt ++ replyText limit options.debug (problem (String.ofList line))) ++
            options.prompt ++ "\n" ∧
      (d.converse limit options clipboard ⟨rest, interrupted⟩).answered =
        d.answered +
          (ls.filter fun line => !Text.allBlank (problem (String.ofList line))).length := by
  induction hcut generalizing d with
  | done =>
    rw [Dialogue.converse_nil, List.map_nil, String.join_nil, String.append_empty]
    exact Dialogue.said_close d options
  | unended hne h =>
    obtain ⟨hsaid, hanswered⟩ := Dialogue.said_respond limit options hclipboard d _
    obtain ⟨hsaid', hanswered'⟩ := Dialogue.said_close
      (d.respond limit options clipboard (String.ofList _)) options
    rw [Dialogue.converse_unended hne h, hsaid', hanswered', hsaid, hanswered, List.map_singleton,
      String.join_cons, String.join_nil, String.append_empty]
    exact ⟨rfl, rfl⟩
  | ended h hrest ih =>
    obtain ⟨hsaid, hanswered⟩ := Dialogue.said_respond limit options hclipboard d _
    obtain ⟨hsaid', hanswered'⟩ := ih (d.respond limit options clipboard (String.ofList _))
    rw [Dialogue.converse_ended h, hsaid', hanswered', hsaid, hanswered]
    constructor
    · rw [List.map_cons, String.join_cons]
      simp only [String.append_assoc]
    · rw [Nat.add_assoc, ← List.length_append, ← List.filter_append, List.singleton_append]

end Reading

/-- Under settings with a text for a prompt, a dialogue says the prompt and the reply to each line
in turn, whichever lines stand around it, and the prompt once more where the input ends. -/
theorem converse_said {settings : Json.Members} {prompt : String} {debug : Bool}
    {clipboard : Clipboard} (hprompt : settings.get? "prompt" = some (.string prompt))
    (hdebug : settings.get? "debug" = some (.bool debug)) (hclipboard : clipboard.Reliable)
    (limit : Nat) (input : Input) :
    ∃ options, Options.ofSettings settings = .ok options ∧
      (∃ ls, Cut input.rest ls) ∧
      ∀ ls, Cut input.rest ls →
        ((Dialogue.start options).converse limit options clipboard input).said =
            String.join (ls.map fun line =>
              prompt ++ replyText limit debug (problem (String.ofList line))) ++ prompt ++ "\n" ∧
          ((Dialogue.start options).converse limit options clipboard input).answered =
            (ls.filter fun line => !Text.allBlank (problem (String.ofList line))).length := by
  obtain ⟨rest, interrupted⟩ := input
  have hoptions : ∃ copying, Options.ofSettings settings = .ok ⟨prompt, copying, debug⟩ := by
    unfold Options.ofSettings
    rw [hprompt, hdebug]
    exact ⟨_, rfl⟩
  obtain ⟨copying, hoptions⟩ := hoptions
  refine ⟨⟨prompt, copying, debug⟩, hoptions, exists_cut rest, fun ls hcut => ?_⟩
  obtain ⟨hsaid, hanswered⟩ := hcut.said_converse limit ⟨prompt, copying, debug⟩ interrupted
    hclipboard (.start ⟨prompt, copying, debug⟩)
  constructor
  · rw [hsaid]
    exact congrArg (· ++ prompt ++ "\n") String.empty_append
  · rw [hanswered]
    exact Nat.zero_add _

set_option maxRecDepth 20000 in
theorem converse_said_interrupted :
    ∃ options, Options.ofSettings
        [("debug", .bool true), ("copy_result", .bool true), ("prompt", .string "> ")] =
          .ok options ∧
      ((Dialogue.start options).converse 600 options (fun _ => none)
        ⟨['x', '\r', '\r', '\n', ' ', '\n', '1', '/', '0', '\n', 'x', '*', 'y'], true⟩).said =
          "> x\n> > Exception: Division by Zero Not Defined\n> x*y\n> \n" ∧
      ((Dialogue.start options).converse 600 options (fun _ => none)
        ⟨['x', '\r', '\r', '\n', ' ', '\n', '1', '/', '0', '\n', 'x', '*', 'y'],
          true⟩).answered = 3 := by
  have hprompt : Json.Members.get? "prompt"
      [("debug", .bool true), ("copy_result", .bool true), ("prompt", .string "> ")] =
        some (.string "> ") := rfl
  have hdebug : Json.Members.get? "debug"
      [("debug", .bool true), ("copy_result", .bool true), ("prompt", .string "> ")] =
        some (.bool true) := rfl
  have hclipboard : Clipboard.Reliable fun _ => none := fun _ => rfl
  obtain ⟨options, hoptions, -, hsaid⟩ := converse_said hprompt hdebug hclipboard 600
    ⟨['x', '\r', '\r', '\n', ' ', '\n', '1', '/', '0', '\n', 'x', '*', 'y'], true⟩
  have hcut : Cut ['x', '\r', '\r', '\n', ' ', '\n', '1', '/', '0', '\n', 'x', '*', 'y']
      [['x', '\r', '\r', '\n'], [' ', '\n'], ['1', '/', '0', '\n'], ['x', '*', 'y']] := by
    have hlast : Cut ['x', '*', 'y'] [['x', '*', 'y']] := .unended (by decide) (by decide)
    have hthird := Cut.ended (by decide : '\n' ∉ ['1', '/', '0']) hlast
    have hsecond := Cut.ended (by decide : '\n' ∉ [' ']) hthird
    exact .ended (by decide : '\n' ∉ ['x', '\r', '\r']) hsecond
  have hresult : replyText 600 true (problem (String.ofList ['x', '\r', '\r', '\n'])) =
      "x\n" := by cbv
  have hblank : replyText 600 true (problem (String.ofList [' ', '\n'])) = "" := by cbv
  have hfault : replyText 600 true (problem (String.ofList ['1', '/', '0', '\n'])) =
      "Exception: Division by Zero Not Defined\n" := by
    have houtcome : (evaluateOn .working 600 true "1/0").outcome = .error (.divisionByZero 1) := by
      cbv
    have hproblem : problem (String.ofList ['1', '/', '0', '\n']) = "1/0" := by cbv
    rw [hproblem, replyText, if_neg (Bool.eq_false_iff.mp (by cbv)), Evaluation.answer, houtcome]
    rfl
  have hecho : replyText 600 true (problem (String.ofList ['x', '*', 'y'])) = "x*y\n" := by cbv
  obtain ⟨htext, hcount⟩ := hsaid _ hcut
  refine ⟨options, hoptions, ?_, ?_⟩
  · rw [htext]
    simp only [List.map_cons, List.map_nil, hresult, hblank, hfault, hecho]
    rfl
  · rw [hcount]
    cbv

end Console

end LaurentCalc
