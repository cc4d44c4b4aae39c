/-!
# Installation

The files that have to be in place before the calculator starts.
-/

namespace LaurentCalc.Installation

def folder : String := "Algebra/"

def requiredModules : List String :=
  ["Scanner.py", "Nodes.py", "Parser.py", "Simplifier.py", "Canonicalizer.py", "MathEngine.py",
    "Console.py", "UI.py", "config_manager.py", "error.py"]

def requiredFiles : List String := ["config.json", "ui_strings.json"]

/-- Whether a path is among the given files or is a folder above one of them. -/
def isThere (present : List String) (path : String) : Bool :=
  present.any fun file => file == path || file.startsWith (path ++ "/")

/-- The names of the required files that are not there. -/
def missing (present : List String) : List String :=
  requiredModules.filter (fun name => !isThere present (folder ++ name)) ++
    requiredFiles.filter (fun name => !isThere present name)

/-- What is said about missing files; nothing if all are there. -/
def complaint (present : List String) : Option String :=
  match missing present with
  | [] => none
  | names =>
    some (String.join
      ("Error: The following files are missing or in the wrong location:\n" ::
        names.map fun name => "- " ++ name ++ "\n"))

end LaurentCalc.Installation
