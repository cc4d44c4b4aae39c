import LaurentCalc.Printing
import LaurentCalc.Settings

/-!
# Console

The dialogue over the lines of an input. Every line is answered on its own, and
results, but not reported faults, go to the clipboard if that is wanted. A
clipboard that fails is not tried again.
-/

namespace LaurentCalc

/-- A piece of output: what the console says, or a traced line of an evaluation. -/
inductive Output where
  | said (text : String)
  | traced (line : String)
  deriving DecidableEq

namespace Output

def text : Output → String
  | .said text => text
  | .traced line => line ++ "\n"

def saidText : Output → String
  | .said text => text
  | .traced _ => ""

def tracedText : Output → String
  | .said _ => ""
  | .traced line => line ++ "\n"

end Output

/-- The failure of a clipboard at each attempt to copy, counted from zero; nothing where the attempt
succeeds. -/
abbrev Clipboard := Nat → Option String

namespace Console

structure Options where
  prompt : String
  copying : Bool
  debug : Bool
  deriving DecidableEq

/-- The options among the settings; a prompt that is no text is refused with the name of its type.
-/
def Options.ofSettings (settings : Json.Members) : Except String Options :=
  let copying := ((settings.get? "copy_result").map Json.Value.holds).getD false
  let debug := ((settings.get? "debug").map Json.Value.holds).getD false
  match settings.get? "prompt" with
  | none => .ok ⟨">>> ", copying, debug⟩
  | some (.string prompt) => .ok ⟨prompt, copying, debug⟩
  | some v => .error v.typeName

/-- A dialogue so far: its output, the texts copied, how many lines were answered, whether results
are still copied, and how often that was tried. -/
structure Dialogue where
  output : List Output
  copied : List String
  answered : Nat
  copying : Bool
  attempts : Nat
  deriving DecidableEq

def Dialogue.start (options : Options) : Dialogue := ⟨[], [], 0, options.copying, 0⟩

/-- The lines of an input, without the line breaks that end them; the last one may go unended. -/
def lines : List Char → List (List Char)
  | [] => []
  | c :: rest =>
    if c = '\n' then [] :: lines rest
    else
      match lines rest with
      | [] => [[c]]
      | line :: more => (c :: line) :: more

/-- The problem on a line: the line without carriage returns and line breaks at its end. -/
def problem (line : String) : String :=
  String.ofList (Text.dropTrailing (fun c => c = '\r' || c = '\n') line.toList)

def clipboardWarning (reason : String) : String := "Clipboard not available: " ++ reason ++ "\n"

/-- Copies a result, if results are still copied. -/
def Dialogue.copy (d : Dialogue) (clipboard : Clipboard) (result : String) : Dialogue :=
  if d.copying then
    match clipboard d.attempts with
    | none => { d with copied := d.copied ++ [result], attempts := d.attempts + 1 }
    | some reason =>
      { d with
        output := d.output ++ [.said (clipboardWarning reason)]
        copying := false
        attempts := d.attempts + 1 }
  else d

def Dialogue.say (d : Dialogue) (text : String) : Dialogue :=
  { d with output := d.output ++ [.said text] }

/-- The dialogue after the answer to a problem. -/
def Dialogue.answer (limit : Nat) (options : Options) (clipboard : Clipboard) (d : Dialogue)
    (problem : String) : Dialogue :=
  let evaluation := evaluateOn .working limit options.debug problem
  let traced : Dialogue :=
    { d with
      output := d.output ++ evaluation.lines.map Output.traced
      answered := d.answered + 1 }
  let spoken := traced.say (evaluation.answer ++ "\n")
  if isErrorLine evaluation.answer then spoken else spoken.copy clipboard evaluation.answer

/-- The dialogue after the reply to a line; blank lines get none. -/
def Dialogue.reply (limit : Nat) (options : Options) (clipboard : Clipboard) (d : Dialogue)
    (line : String) : Dialogue :=
  if Text.allBlank (problem line) then d else d.answer limit options clipboard (problem line)

/-- The dialogue after one more line, for which the prompt asks. -/
def Dialogue.respond (limit : Nat) (options : Options) (clipboard : Clipboard) (d : Dialogue)
    (line : String) : Dialogue :=
  (d.say options.prompt).reply limit options clipboard line

def Dialogue.close (options : Options) (d : Dialogue) : Dialogue :=
  (d.say options.prompt).say "\n"

def run (limit : Nat) (options : Options) (clipboard : Clipboard) (input : String) : Dialogue :=
  let texts := (lines input.toList).map String.ofList
  (texts.foldl (Dialogue.respond limit options clipboard) (.start options)).close options

/-- What is left of an input, and whether it ends with an interruption. -/
structure Input where
  rest : List Char
  interrupted : Bool
  deriving DecidableEq

inductive Received where
  | line (text : List Char)
  | endOfInput
  | interruption
  deriving DecidableEq

/-- The first line, with the line break that ends it, and what is left behind it. -/
def cutLine : List Char → List Char × List Char
  | [] => ([], [])
  | c :: rest =>
    if c = '\n' then ([c], rest)
    else
      let (line, left) := cutLine rest
      (c :: line, left)

def Input.readLine (input : Input) : Received × Input :=
  match input.rest with
  | [] => (if input.interrupted then .interruption else .endOfInput, input)
  | rest =>
    let (line, left) := cutLine rest
    (.line line, { input with rest := left })

theorem length_cutLine_lt {cs : List Char} (h : cs ≠ []) : (cutLine cs).2.length < cs.length := by
  induction cs with
  | nil => exact absurd rfl h
  | cons c rest ih =>
    rw [cutLine]
    split
    · exact Nat.lt_succ_self _
    · cases rest with
      | nil => exact Nat.lt_succ_self _
      | cons c' rest =>
        have hlt := ih (List.cons_ne_nil c' rest)
        exact Nat.lt_succ_of_lt hlt

/-- Only a line that is read uses up the input. -/
theorem Input.length_readLine_lt {input left : Input} {line : List Char}
    (h : input.readLine = (.line line, left)) : left.rest.length < input.rest.length := by
  unfold readLine at h
  split at h
  · split at h <;> cases h
  · next hne =>
    cases h
    exact length_cutLine_lt hne

/-- The dialogue over what is left of an input: the prompt asks for a line time and again, until
none comes. -/
def Dialogue.converse (limit : Nat) (options : Options) (clipboard : Clipboard) (d : Dialogue)
    (input : Input) : Dialogue :=
  let asked := d.say options.prompt
  match _h : input.readLine with
  | (.line line, left) =>
    (asked.reply limit options clipboard (String.ofList line)).converse limit options clipboard left
  | (.endOfInput, _) | (.interruption, _) => asked.say "\n"
termination_by input.rest.length
decreasing_by exact Input.length_readLine_lt _h

def Dialogue.said (d : Dialogue) : String := String.join (d.output.map Output.saidText)

def Dialogue.traced (d : Dialogue) : String := String.join (d.output.map Output.tracedText)

/-- Everything in the order in which it appeared. -/
def Dialogue.transcript (d : Dialogue) : String := String.join (d.output.map Output.text)

end Console

end LaurentCalc
