import LaurentCalc.Proofs.Lines
import LaurentCalc.Proofs.LoadedSettings

/-!
# Clipboards that fail

A dialogue that copies its results goes on as one that copies none. As long as the
clipboard works, it is handed every result; where it fails for the first time, a warning
is put out behind the line of that result, and nothing is copied any more.
-/

namespace LaurentCalc

set_option autoImplicit false

/-- The first `n` attempts to copy succeed. -/
def Clipboard.WorksFor (clipboard : Clipboard) (n : Nat) : Prop :=
  ∀ attempt < n, clipboard attempt = none

/-- The first `n` attempts to copy succeed, and the next one fails. -/
def Clipboard.FailsAfter (clipboard : Clipboard) (n : Nat) (reason : String) : Prop :=
  clipboard.WorksFor n ∧ clipboard n = some reason

theorem Clipboard.WorksFor.mono {clipboard : Clipboard} {m n : Nat} (h : clipboard.WorksFor n)
    (hle : m ≤ n) : clipboard.WorksFor m :=
  fun attempt hlt => h attempt (Nat.lt_of_lt_of_le hlt hle)

namespace Console

/-- What is put out for a problem apart from warnings: the prompt and, unless the problem is blank,
the traced lines and the answer. -/
def shown (limit : Nat) (prompt : String) (debug : Bool) (problem : String) : List Output :=
  .said prompt ::
    if Text.allBlank problem then []
    else (evaluateOn .working limit debug problem).lines.map Output.traced ++
      [.said ((evaluateOn .working limit debug problem).answer ++ "\n")]

/-- The dialogue after problems have been replied to, but for the copies of their results. -/
def Dialogue.display (limit : Nat) (options : Options) (d : Dialogue) (problems : List String) :
    Dialogue :=
  { d with
    output := d.output ++ problems.flatMap (shown limit options.prompt options.debug)
    answered := d.answered + (problems.filter fun problem => !Text.allBlank problem).length }

def Dialogue.handOver (d : Dialogue) (results : List String) : Dialogue :=
  { d with copied := d.copied ++ results, attempts := d.attempts + results.length }

def Dialogue.warn (d : Dialogue) (reason : String) : Dialogue :=
  { d with
    output := d.output ++ [.said (clipboardWarning reason)]
    copying := false
    attempts := d.attempts + 1 }

def dialogue (limit : Nat) (options : Options) (clipboard : Clipboard) (input : Input) : Dialogue :=
  (Dialogue.start options).converse limit options clipboard input

section Steps

variable {limit : Nat} {options : Options} {clipboard : Clipboard} {d : Dialogue}
variable {problem result reason : String}

theorem Dialogue.copy_of_silent (h : d.copying = false) (result : String) :
    d.copy clipboard result = d := by
  rw [copy, h]
  exact if_neg Bool.false_ne_true

theorem Dialogue.copy_of_working (h : d.copying = true) (hworks : clipboard d.attempts = none)
    (result : String) : d.copy clipboard result = d.handOver [result] := by
  rw [copy, if_pos h, hworks]
  rfl

theorem Dialogue.copy_of_failing (h : d.copying = true)
    (hfails : clipboard d.attempts = some reason) (result : String) :
    d.copy clipboard result = d.warn reason := by
  rw [copy, if_pos h, hfails]
  rfl

theorem Dialogue.display_append (d : Dialogue) (ps qs : List String) :
    d.display limit options (ps ++ qs) = (d.display limit options ps).display limit options qs := by
  unfold display
  rw [List.flatMap_append, List.filter_append, List.length_append, List.append_assoc,
    Nat.add_assoc]

theorem Dialogue.display_cons (d : Dialogue) (problem : String) (ps : List String) :
    d.display limit options (problem :: ps) =
      (d.display limit options [problem]).display limit options ps :=
  d.display_append [problem] ps

theorem Dialogue.handOver_append (d : Dialogue) (rs ss : List String) :
    d.handOver (rs ++ ss) = (d.handOver rs).handOver ss := by
  unfold handOver
  rw [List.length_append, List.append_assoc, Nat.add_assoc]

theorem Dialogue.handOver_nil (d : Dialogue) : d.handOver [] = d := by
  unfold handOver
  rw [List.append_nil]
  rfl

theorem shown_of_blank (h : Text.allBlank problem = true) (limit : Nat) (prompt : String)
    (debug : Bool) : shown limit prompt debug problem = [.said prompt] := by
  rw [shown, if_pos h]

theorem shown_of_result {debug : Bool} (h : ¬Text.allBlank problem = true)
    (houtcome : (evaluateOn .working limit debug problem).outcome = .ok result) (prompt : String) :
    shown limit prompt debug problem =
      .said prompt :: (evaluateOn .working limit debug problem).lines.map Output.traced ++
        [.said (result ++ "\n")] := by
  rw [shown, if_neg h, Evaluation.answer, houtcome]
  rfl

theorem Dialogue.display_of_blank (h : Text.allBlank problem = true) (d : Dialogue) :
    d.display limit options [problem] = d.say options.prompt := by
  rw [display, List.flatMap_singleton, shown_of_blank h, List.filter_cons_of_neg (by simp [h])]
  rfl

theorem Dialogue.display_of_answered (h : ¬Text.allBlank problem = true) (d : Dialogue) :
    d.display limit options [problem] =
      (d.say options.prompt).present (evaluateOn .working limit options.debug problem) := by
  rw [display, List.flatMap_singleton, shown, if_neg h, List.filter_cons_of_pos (by simp [h])]
  unfold present say
  rw [List.append_assoc, List.append_assoc]
  rfl

/-- A line is replied to, and then its result is copied if it has one. -/
theorem Dialogue.respond_eq (d : Dialogue) (line : String) :
    d.respond limit options clipboard line =
      (results limit options.debug [Console.problem line]).foldl (Dialogue.copy · clipboard)
        (d.display limit options [Console.problem line]) := by
  unfold respond reply
  by_cases hblank : Text.allBlank (Console.problem line) = true
  · rw [if_pos hblank, results_of_blank limit hblank, display_of_blank hblank]
    rfl
  · rw [if_neg hblank, answer_eq, results_of_answered limit hblank, display_of_answered hblank]
    cases (evaluateOn .working limit options.debug (Console.problem line)).outcome <;> rfl

end Steps

section Runs

variable {limit : Nat} {options : Options} {clipboard : Clipboard} {d : Dialogue}
variable {problem : String} {ps : List String} {k : Nat}

theorem results_append (limit : Nat) (debug : Bool) (ps qs : List String) :
    results limit debug (ps ++ qs) = results limit debug ps ++ results limit debug qs := by
  unfold results
  rw [List.filter_append, List.filterMap_append]

/-- A problem has at most one result. -/
theorem results_singleton (limit : Nat) (debug : Bool) (problem : String) :
    results limit debug [problem] = [] ∨
      ∃ result, results limit debug [problem] = [result] ∧ ¬Text.allBlank problem = true ∧
        (evaluateOn .working limit debug problem).outcome = .ok result := by
  by_cases hblank : Text.allBlank problem = true
  · exact Or.inl (results_of_blank limit hblank)
  · rw [results_of_answered limit hblank]
    cases houtcome : (evaluateOn .working limit debug problem).outcome with
    | ok result => exact Or.inr ⟨result, rfl, hblank, rfl⟩
    | error fault => exact Or.inl rfl

/-- The problem that a result belongs to. -/
theorem exists_problem_of_lt_length {debug : Bool} (h : k < (results limit debug ps).length) :
    ∃ before problem after result, ps = before ++ problem :: after ∧
      (results limit debug before).length = k ∧ ¬Text.allBlank problem = true ∧
      (evaluateOn .working limit debug problem).outcome = .ok result ∧
      results limit debug [problem] = [result] := by
  -- a problem without a result leaves `k` as it is, one with a result takes one off
  induction ps generalizing k with
  | nil => cases h
  | cons p ps ih =>
    rw [results_cons, List.length_append] at h
    rcases results_singleton limit debug p with hnone | ⟨result, hone, hblank, houtcome⟩
    · rw [hnone, List.length_nil, Nat.zero_add] at h
      obtain ⟨before, problem, after, result, rfl, hlength, hresult⟩ := ih h
      refine ⟨p :: before, problem, after, result, rfl, ?_, hresult⟩
      rw [results_cons, hnone, List.nil_append, hlength]
    · cases k with
      | zero => exact ⟨[], p, ps, result, rfl, rfl, hblank, houtcome, hone⟩
      | succ k =>
        rw [hone, List.length_singleton] at h
        obtain ⟨before, problem, after, result', rfl, hlength, hresult⟩ := ih (k := k) (by omega)
        refine ⟨p :: before, problem, after, result', rfl, ?_, hresult⟩
        rw [results_cons, hone, List.length_append, List.length_singleton, hlength, Nat.add_comm]

theorem Dialogue.respond_of_silent (h : d.copying = false) (line : String) :
    d.respond limit options clipboard line = d.display limit options [Console.problem line] := by
  rw [respond_eq]
  rcases results_singleton limit options.debug (Console.problem line) with hnone | ⟨result, hone, -⟩
  · rw [hnone, List.foldl_nil]
  · rw [hone, List.foldl_cons, List.foldl_nil]
    exact copy_of_silent (d := d.display limit options [Console.problem line]) h result

theorem Dialogue.respond_of_working (h : d.copying = true) (line : String)
    (hworks : ∀ i < (results limit options.debug [Console.problem line]).length,
      clipboard (d.attempts + i) = none) :
    d.respond limit options clipboard line =
      (d.display limit options [Console.problem line]).handOver
        (results limit options.debug [Console.problem line]) := by
  rw [respond_eq]
  rcases results_singleton limit options.debug (Console.problem line) with hnone | ⟨result, hone, -⟩
  · rw [hnone, List.foldl_nil, handOver_nil]
  · rw [hone] at hworks ⊢
    rw [List.foldl_cons, List.foldl_nil]
    exact copy_of_working (d := d.display limit options [Console.problem line]) h
      (hworks 0 Nat.zero_lt_one) result

theorem Dialogue.respond_of_failing (h : d.copying = true) {line result reason : String}
    (hresult : results limit options.debug [Console.problem line] = [result])
    (hfails : clipboard d.attempts = some reason) :
    d.respond limit options clipboard line =
      (d.display limit options [Console.problem line]).warn reason := by
  rw [respond_eq, hresult, List.foldl_cons, List.foldl_nil]
  exact copy_of_failing (d := d.display limit options [Console.problem line]) h hfails result

/-- A dialogue that copies nothing only puts out the replies. -/
theorem Dialogue.foldl_of_silent (h : d.copying = false) (texts : List String) :
    texts.foldl (respond limit options clipboard) d =
      d.display limit options (texts.map Console.problem) := by
  induction texts generalizing d with
  | nil => rw [List.map_nil, display, List.flatMap_nil, List.append_nil]; rfl
  | cons line texts ih =>
    have hrest := ih (d := d.display limit options [Console.problem line]) h
    rw [List.foldl_cons, respond_of_silent h, hrest, List.map_cons,
      display_cons d (Console.problem line) (texts.map Console.problem)]

/-- As long as the clipboard works, it is handed every result, and the same is put out. -/
theorem Dialogue.foldl_of_working (h : d.copying = true) (texts : List String)
    (hworks : ∀ i < (results limit options.debug (texts.map Console.problem)).length,
      clipboard (d.attempts + i) = none) :
    texts.foldl (respond limit options clipboard) d =
      (d.display limit options (texts.map Console.problem)).handOver
        (results limit options.debug (texts.map Console.problem)) := by
  -- the copies made so far are in `d`, so the clipboard is asked from `d.attempts` on
  induction texts generalizing d with
  | nil =>
    rw [List.map_nil, display, List.flatMap_nil, List.append_nil]
    exact (handOver_nil d).symm
  | cons line texts ih =>
    rw [List.map_cons, results_cons, List.length_append] at hworks
    have hhead : ∀ i < (results limit options.debug [Console.problem line]).length,
        clipboard (d.attempts + i) = none := fun i hi => hworks i (by omega)
    have hrest := ih (d := (d.display limit options [Console.problem line]).handOver
      (results limit options.debug [Console.problem line])) h fun i hi =>
        (congrArg clipboard (Nat.add_assoc _ _ i)).trans (hworks _ (Nat.add_lt_add_left hi _))
    rw [List.foldl_cons, respond_of_working h line hhead, hrest, List.map_cons,
      results_cons limit options.debug (Console.problem line) (texts.map Console.problem),
      display_cons d (Console.problem line) (texts.map Console.problem), handOver_append]
    rfl

/-- Where the clipboard fails at a result, there is a warning behind the line of that result, and
what follows is not copied. -/
theorem Dialogue.foldl_of_failing (h : d.copying = true) {before after : List String}
    {line result reason : String}
    (hworks : ∀ i < (results limit options.debug (before.map Console.problem)).length,
      clipboard (d.attempts + i) = none)
    (hresult : results limit options.debug [Console.problem line] = [result])
    (hfails : clipboard (d.attempts +
      (results limit options.debug (before.map Console.problem)).length) = some reason) :
    (before ++ line :: after).foldl (respond limit options clipboard) d =
      ((((d.display limit options (before.map Console.problem)).handOver
        (results limit options.debug (before.map Console.problem))).display limit options
          [Console.problem line]).warn reason).display limit options
            (after.map Console.problem) := by
  rw [List.foldl_append, foldl_of_working h before hworks, List.foldl_cons,
    respond_of_failing (by exact h) hresult hfails]
  exact foldl_of_silent rfl after

theorem dialogue_eq_foldl (limit : Nat) (options : Options) (clipboard : Clipboard)
    (input : Input) :
    ∃ texts : List String, texts.map Console.problem = problems (String.ofList input.rest) ∧
      dialogue limit options clipboard input =
        (texts.foldl (Dialogue.respond limit options clipboard) (.start options)).close options := by
  obtain ⟨rest, interrupted⟩ := input
  have hrun := @converse_eq_run limit options clipboard interrupted (String.ofList rest)
  rw [String.toList_ofList] at hrun
  refine ⟨(lines (String.ofList rest).toList).map String.ofList, ?_, hrun⟩
  rw [List.map_map]
  rfl

theorem dialogue_of_silent (h : options.copying = false) (input : Input) :
    dialogue limit options clipboard input =
      ((Dialogue.start options).display limit options
        (problems (String.ofList input.rest))).close options := by
  obtain ⟨texts, htexts, hfold⟩ := dialogue_eq_foldl limit options clipboard input
  rw [hfold, ← htexts, Dialogue.foldl_of_silent h]

theorem dialogue_of_working (h : options.copying = true) {input : Input}
    (hworks : clipboard.WorksFor
      (results limit options.debug (problems (String.ofList input.rest))).length) :
    dialogue limit options clipboard input =
      (((Dialogue.start options).display limit options
        (problems (String.ofList input.rest))).handOver
          (results limit options.debug (problems (String.ofList input.rest)))).close options := by
  obtain ⟨texts, htexts, hfold⟩ := dialogue_eq_foldl limit options clipboard input
  rw [← htexts] at hworks ⊢
  rw [hfold, Dialogue.foldl_of_working h texts fun i hi => ?_]
  exact (congrArg clipboard (Nat.zero_add i)).trans (hworks i hi)

theorem dialogue_of_failing (h : options.copying = true) {before after : List String}
    {problem result reason : String} {input : Input}
    (hproblems : problems (String.ofList input.rest) = before ++ problem :: after)
    (hresult : results limit options.debug [problem] = [result])
    (hfails : clipboard.FailsAfter (results limit options.debug before).length reason) :
    dialogue limit options clipboard input =
      ((((((Dialogue.start options).display limit options before).handOver
        (results limit options.debug before)).display limit options [problem]).warn
          reason).display limit options after).close options := by
  obtain ⟨texts, htexts, hfold⟩ := dialogue_eq_foldl limit options clipboard input
  rw [hproblems] at htexts
  obtain ⟨texts₁, more, rfl, rfl, hmore⟩ := List.map_eq_append_iff.mp htexts
  obtain ⟨line, texts₂, rfl, rfl, rfl⟩ := List.map_eq_cons_iff.mp hmore
  obtain ⟨hworks, hattempt⟩ := hfails
  have hworks' : ∀ i < (results limit options.debug (texts₁.map Console.problem)).length,
      clipboard ((Dialogue.start options).attempts + i) = none :=
    fun i hi => (congrArg clipboard (Nat.zero_add i)).trans (hworks i hi)
  rw [hfold, Dialogue.foldl_of_failing h hworks' hresult
    ((congrArg clipboard (Nat.zero_add _)).trans hattempt)]

end Runs

section Comparison

variable {limit k : Nat} {prompt reason : String} {debug : Bool} {clipboard other : Clipboard}
variable {input : Input} {found : List String}

/-- A clipboard that works long enough is handed all results, and nothing else is different. -/
theorem dialogue_copies_all
    (hfound : found = results limit debug (problems (String.ofList input.rest)))
    (hworks : clipboard.WorksFor found.length) :
    (dialogue limit ⟨prompt, true, debug⟩ clipboard input).copied = found ∧
      (dialogue limit ⟨prompt, true, debug⟩ clipboard input).attempts = found.length ∧
      (dialogue limit ⟨prompt, true, debug⟩ clipboard input).answered =
        (dialogue limit ⟨prompt, false, debug⟩ other input).answered ∧
      (dialogue limit ⟨prompt, true, debug⟩ clipboard input).output =
        (dialogue limit ⟨prompt, false, debug⟩ other input).output := by
  subst hfound
  have hcopying := @dialogue_of_working limit ⟨prompt, true, debug⟩ clipboard rfl input hworks
  have hsilent := @dialogue_of_silent limit ⟨prompt, false, debug⟩ other rfl input
  rw [hcopying, hsilent]
  exact ⟨List.nil_append _, Nat.zero_add _, rfl, rfl⟩

/-- A clipboard that fails at a result is handed the results before it, and the warning is put out
right behind its line. -/
theorem dialogue_copies_until
    (hfound : found = results limit debug (problems (String.ofList input.rest)))
    (hfails : clipboard.FailsAfter k reason) (hlt : k < found.length) :
    (dialogue limit ⟨prompt, true, debug⟩ clipboard input).copied = found.take k ∧
      (dialogue limit ⟨prompt, true, debug⟩ clipboard input).attempts = k + 1 ∧
      (dialogue limit ⟨prompt, true, debug⟩ clipboard input).answered =
        (dialogue limit ⟨prompt, false, debug⟩ other input).answered ∧
      ∃ before problem after result start rest,
        problems (String.ofList input.rest) = before ++ problem :: after ∧
        (results limit debug before).length = k ∧
        (evaluateOn .working limit debug problem).outcome = .ok result ∧
        start = before.flatMap (shown limit prompt debug) ++
          .said prompt :: (evaluateOn .working limit debug problem).lines.map Output.traced ∧
        rest = after.flatMap (shown limit prompt debug) ++ [.said prompt, .said "\n"] ∧
        (dialogue limit ⟨prompt, false, debug⟩ other input).output =
          start ++ .said (result ++ "\n") :: rest ∧
        (dialogue limit ⟨prompt, true, debug⟩ clipboard input).output =
          start ++ .said (result ++ "\n") :: .said (clipboardWarning reason) :: rest := by
  rw [hfound] at hlt
  obtain ⟨before, problem, after, result, hproblems, rfl, hblank, houtcome, hresult⟩ :=
    exists_problem_of_lt_length hlt
  have hshown := shown_of_result hblank houtcome prompt
  have hsplit : found = results limit debug before ++ result :: results limit debug after := by
    rw [hfound, hproblems, results_append, results_cons, hresult, List.singleton_append]
  have hcopying := @dialogue_of_failing limit ⟨prompt, true, debug⟩ clipboard rfl before after
    problem result reason input hproblems hresult hfails
  have hsilent := @dialogue_of_silent limit ⟨prompt, false, debug⟩ other rfl input
  rw [hcopying, hsilent, hsplit, hproblems]
  refine ⟨?_, ?_, ?_, before, problem, after, result, _, _, rfl, rfl, houtcome, rfl, rfl, ?_, ?_⟩
  · rw [List.take_left]
    exact List.nil_append _
  · exact congrArg (· + 1) (Nat.zero_add _)
  · rw [Dialogue.display_append, Dialogue.display_cons _ problem after]
    rfl
  · simp only [Dialogue.close, Dialogue.say, Dialogue.display, Dialogue.start, List.nil_append,
      List.flatMap_append, List.flatMap_cons, hshown, List.append_assoc, List.cons_append]
  · simp only [Dialogue.close, Dialogue.say, Dialogue.display, Dialogue.start, Dialogue.warn,
      Dialogue.handOver, List.nil_append, List.flatMap_cons, List.flatMap_nil, hshown,
      List.append_assoc, List.cons_append]

end Comparison

/-- Under settings with which results are copied, a dialogue differs from the one in which they are
not copied by the copies, and by at most one warning. A clipboard that works is handed all results
in order. One that fails after `k` copies has been handed the first `k` results; if there is a next
one, the warning stands right behind its line, and that was the last attempt. -/
theorem dialogue_copies {settings : Json.Members} {prompt : String} {debug : Bool}
    (hprompt : settings.get? "prompt" = some (.string prompt))
    (hdebug : settings.get? "debug" = some (.bool debug))
    (hcopying : settings.get? "copy_result" = some (.bool true)) (limit : Nat) (input : Input) :
    ∃ copying silent, Options.ofSettings settings = .ok copying ∧
      Options.ofSettings (settings.put "copy_result" (.bool false)) = .ok silent ∧
      ∀ (found : List String) (d₀ : Dialogue) (clipboard other : Clipboard),
        found = results limit debug (problems (String.ofList input.rest)) →
        d₀ = dialogue limit silent other input →
        (clipboard.Reliable →
          (dialogue limit copying clipboard input).copied = found ∧
          (dialogue limit copying clipboard input).attempts = found.length ∧
          (dialogue limit copying clipboard input).answered = d₀.answered ∧
          (dialogue limit copying clipboard input).output = d₀.output) ∧
        ∀ k reason, clipboard.FailsAfter k reason →
          (dialogue limit copying clipboard input).copied = found.take k ∧
          (dialogue limit copying clipboard input).attempts = min found.length (k + 1) ∧
          (dialogue limit copying clipboard input).answered = d₀.answered ∧
          (found.length ≤ k → (dialogue limit copying clipboard input).output = d₀.output) ∧
          (k < found.length → ∃ before problem after result start rest,
            problems (String.ofList input.rest) = before ++ problem :: after ∧
            (results limit debug before).length = k ∧
            (evaluateOn .working limit debug problem).outcome = .ok result ∧
            start = before.flatMap (shown limit prompt debug) ++
              .said prompt :: (evaluateOn .working limit debug problem).lines.map Output.traced ∧
            rest = after.flatMap (shown limit prompt debug) ++ [.said prompt, .said "\n"] ∧
            d₀.output = start ++ .said (result ++ "\n") :: rest ∧
            (dialogue limit copying clipboard input).output =
              start ++ .said (result ++ "\n") :: .said (clipboardWarning reason) :: rest) := by
  have hoptions : Options.ofSettings settings = .ok ⟨prompt, true, debug⟩ := by
    unfold Options.ofSettings
    rw [hprompt, hdebug, hcopying]
    rfl
  have hsilent : Options.ofSettings (settings.put "copy_result" (.bool false)) =
      .ok ⟨prompt, false, debug⟩ := by
    unfold Options.ofSettings
    rw [Json.Members.get?_put, Json.Members.get?_put, Json.Members.get?_put, if_pos rfl,
      if_neg (by decide), if_neg (by decide), hprompt, hdebug]
    rfl
  refine ⟨_, _, hoptions, hsilent, fun found d₀ clipboard other hfound hd₀ => ?_⟩
  subst hd₀
  refine ⟨fun hreliable => dialogue_copies_all hfound fun attempt _ => hreliable attempt,
    fun k reason hfails => ?_⟩
  rcases Nat.lt_or_ge k found.length with hlt | hge
  · obtain ⟨hcopied, hattempts, hanswered, hinterposed⟩ :=
      dialogue_copies_until hfound hfails hlt
    rw [Nat.min_eq_right hlt]
    exact ⟨hcopied, hattempts, hanswered, fun hge => absurd hlt (Nat.not_lt.mpr hge),
      fun _ => hinterposed⟩
  · obtain ⟨hcopied, hattempts, hanswered, houtput⟩ :=
      dialogue_copies_all hfound (hfails.1.mono hge)
    rw [List.take_of_length_le hge, Nat.min_eq_left (Nat.le_succ_of_le hge)]
    exact ⟨hcopied, hattempts, hanswered, fun _ => houtput,
      fun hlt => absurd hlt (Nat.not_lt.mpr hge)⟩

set_option maxRecDepth 20000 in
theorem dialogue_copies_one :
    ∃ copying silent,
      Options.ofSettings
        [("debug", .bool true), ("copy_result", .bool true), ("prompt", .string "> ")] =
          .ok copying ∧
      Options.ofSettings
        [("debug", .bool true), ("copy_result", .bool false), ("prompt", .string "> ")] =
          .ok silent ∧
      (dialogue 600 copying (fun attempt => if attempt = 1 then some "no backend" else none)
        ⟨['x', '\n', '1', '/', '0', '\n', '\n', 'x', '*', 'y', '\n', '2'], false⟩).copied = ["x"] ∧
      (dialogue 600 copying (fun attempt => if attempt = 1 then some "no backend" else none)
        ⟨['x', '\n', '1', '/', '0', '\n', '\n', 'x', '*', 'y', '\n', '2'], false⟩).attempts = 2 ∧
      ∃ start result rest,
        (dialogue 600 silent (fun _ => none)
          ⟨['x', '\n', '1', '/', '0', '\n', '\n', 'x', '*', 'y', '\n', '2'], false⟩).output =
            start ++ .said (result ++ "\n") :: rest ∧
        (dialogue 600 copying (fun attempt => if attempt = 1 then some "no backend" else none)
          ⟨['x', '\n', '1', '/', '0', '\n', '\n', 'x', '*', 'y', '\n', '2'], false⟩).output =
            start ++ .said (result ++ "\n") ::
              .said "Clipboard not available: no backend\n" :: rest := by
  have hprompt : Json.Members.get? "prompt"
      [("debug", .bool true), ("copy_result", .bool true), ("prompt", .string "> ")] =
        some (.string "> ") := rfl
  have hdebug : Json.Members.get? "debug"
      [("debug", .bool true), ("copy_result", .bool true), ("prompt", .string "> ")] =
        some (.bool true) := rfl
  obtain ⟨copying, silent, hcopying, hsilent, hcopies⟩ := dialogue_copies hprompt hdebug rfl 600
    ⟨['x', '\n', '1', '/', '0', '\n', '\n', 'x', '*', 'y', '\n', '2'], false⟩
  have hfound : results 600 true (problems (String.ofList
      ['x', '\n', '1', '/', '0', '\n', '\n', 'x', '*', 'y', '\n', '2'])) = ["x", "x*y", "2"] := by
    cbv
  have hfails : Clipboard.FailsAfter
      (fun attempt => if attempt = 1 then some "no backend" else none) 1 "no backend" :=
    ⟨fun attempt hlt => if_neg (Nat.ne_of_lt hlt), rfl⟩
  obtain ⟨hcopied, hattempts, -, -, hinterposed⟩ :=
    (hcopies ["x", "x*y", "2"] _ _ (fun _ => none) hfound.symm rfl).2 1 "no backend" hfails
  obtain ⟨-, -, -, result, start, rest, -, -, -, -, -, houtput, houtput'⟩ :=
    hinterposed (by decide)
  exact ⟨copying, silent, hcopying, hsilent, hcopied, hattempts, start, result, rest, houtput,
    houtput'⟩

end Console

end LaurentCalc
