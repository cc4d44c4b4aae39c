import LaurentCalc.Console

/-!
# Programs

The ways in which the calculator is run: as a dialogue under the settings of a
file, with or without a line about these settings, or for a single problem.
-/

namespace LaurentCalc

inductive ProgramFault where
  | file (fault : FileFault)
  | promptNotText (typeName : String)
  | noInput
  deriving DecidableEq

/-- What a program has written and copied, and why it ended early, if it did. -/
structure Performance where
  written : String
  copied : List String
  fault? : Option ProgramFault

namespace Performance

def failed (written : String) (fault : ProgramFault) : Performance := ⟨written, [], some fault⟩

def after (text : String) (p : Performance) : Performance := { p with written := text ++ p.written }

end Performance

namespace Program

def converse (limit : Nat) (settings : Json.Members) (clipboard : Clipboard) (input : String) :
    Performance :=
  match Console.Options.ofSettings settings with
  | .error typeName => .failed "" (.promptNotText typeName)
  | .ok options =>
    let dialogue := Console.run limit options clipboard input
    ⟨dialogue.transcript, dialogue.copied, none⟩

/-- The line about the settings, which appears if tracing is on. -/
def settingsLine (settings : Json.Members) : String :=
  if ((settings.get? "debug").map Json.Value.isTrue).getD false then
    "Config loaded: " ++ (Json.Value.object settings).shown ++ "\n"
  else ""

def console (limit : Nat) (file : FileState) (clipboard : Clipboard) (input : String) :
    Performance :=
  match Settings.load limit file with
  | .error fault => .failed "" (.file fault)
  | .ok settings => converse limit settings clipboard input

/-- The dialogue under the settings of a file, and the line about these settings before it. -/
def start (limit : Nat) (file : FileState) (clipboard : Clipboard) (input : String) :
    Performance :=
  match Settings.load limit file with
  | .error fault => .failed "" (.file fault)
  | .ok settings => (converse limit settings clipboard input).after (settingsLine settings)

def question : String := "Enter the problem: \n"

/-- The problem on the first line of an input, which is traced and answered. -/
def solveOne (limit : Nat) (input : String) : Performance :=
  match Console.lines input.toList with
  | [] => .failed question .noInput
  | line :: _ =>
    let evaluation := evaluateOn .working limit true (String.ofList line)
    let written := evaluation.lines ++ [evaluation.answer]
    ⟨question ++ String.join (written.map (· ++ "\n")), [], none⟩

end Program

def evaluateUnder (limit : Nat) (file : FileState) (text : String) :
    Except FileFault Evaluation := do
  let debug ← Settings.loadValue limit file "debug"
  return evaluateOn .working limit debug.holds text

end LaurentCalc
