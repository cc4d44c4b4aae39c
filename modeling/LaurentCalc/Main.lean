import LaurentCalc.Program

/-!
# Command line

The dialogue on standard input and output, under the settings of the file
`config.json` in the current folder.
-/

namespace LaurentCalc.CommandLine

def settingsPath : String := "config.json"

/-- No clipboard can be reached from here. -/
def noClipboard : Clipboard := fun _ => some "no clipboard is available"

def settingsFile : IO FileState := do
  match ← (IO.FS.readBinFile settingsPath).toBaseIO with
  | .ok content => return .bytes content.toList
  | .error (.noFileOrDirectory ..) => return .absent
  | .error (.inappropriateType ..) => return .directory
  | .error _ => return .unreadable

/-- Asks for lines and replies to them until the input ends. -/
partial def converse (options : Console.Options) (d : Console.Dialogue)
    (input output : IO.FS.Stream) : IO Unit := do
  output.putStr options.prompt
  output.flush
  let line ← input.getLine
  if line.isEmpty then output.putStr "\n"
  else
    let next := d.reply nestingLimit options noClipboard line
    output.putStr next.transcript
    converse options { next with output := [] } input output

/-- Starts the dialogue, unless the settings cannot be used. -/
def start : IO UInt32 := do
  match Settings.load nestingLimit (← settingsFile) with
  | .error fault =>
    IO.eprintln (fault.message?.getD settingsPath)
    return 1
  | .ok settings =>
    let output ← IO.getStdout
    output.putStr (Program.settingsLine settings)
    match Console.Options.ofSettings settings with
    | .error typeName =>
      IO.eprintln ("The prompt is no text but of type " ++ typeName)
      return 1
    | .ok options =>
      converse options (.start options) (← IO.getStdin) output
      return 0

end LaurentCalc.CommandLine

def main : IO UInt32 := LaurentCalc.CommandLine.start
