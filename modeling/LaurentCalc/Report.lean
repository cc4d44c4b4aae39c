import LaurentCalc.Fault

/-!
# Reports

The form in which a fault leaves the calculator: its kind, a message, a code of
four digits and the text that was to be evaluated. The code selects the line
that a user sees; some lines end with the message.
-/

namespace LaurentCalc

/-- The kinds of report, from the most general to the most special. -/
inductive ReportKind where
  | general
  | parsing
  | calculation
  | solving
  | unknownCharacter
  | malformed
  | divisionByZero
  | zeroToZero
  | nothingToSimplify
  deriving DecidableEq

namespace ReportKind

/-- A kind and the more general kinds above it, the most general last. -/
def lineage : ReportKind → List ReportKind
  | .general => [.general]
  | .parsing => [.parsing, .general]
  | .calculation => [.calculation, .general]
  | .solving => [.solving, .general]
  | .unknownCharacter => [.unknownCharacter, .parsing, .general]
  | .malformed => [.malformed, .parsing, .general]
  | .divisionByZero => [.divisionByZero, .calculation, .general]
  | .zeroToZero => [.zeroToZero, .calculation, .general]
  | .nothingToSimplify => [.nothingToSimplify, .solving, .general]

/-- The code of a report of this kind, unless it is given another. -/
def defaultCode : ReportKind → String
  | .unknownCharacter => "3100"
  | .malformed => "3101"
  | .divisionByZero => "3003"
  | .zeroToZero => "3102"
  | .nothingToSimplify => "3103"
  | .general | .parsing | .calculation | .solving => "9999"

/-- The message of a report of this kind, unless it is given another; the general kinds have none.
-/
def defaultMessage : ReportKind → String
  | .unknownCharacter => "Invalid Character"
  | .malformed => "Invalid Syntax"
  | .divisionByZero => "Division by Zero Not Defined"
  | .zeroToZero => "Zero Raised to Zero Not Defined"
  | .nothingToSimplify => "Nothing to simplify"
  | .general | .parsing | .calculation | .solving => ""

end ReportKind

structure Report where
  kind : ReportKind
  message : String
  code : String
  equation? : Option String
  deriving DecidableEq

def errorMark : String := "Exception: "

def isErrorLine (line : String) : Bool := errorMark.toList.isPrefixOf line.toList

def describeCode (code : String) : String × Bool :=
  if code = "3003" then ("Division by Zero Not Defined", false)
  else if code = "3100" then ("Invalid Character", false)
  else if code = "3101" then ("Invalid Syntax", false)
  else if code = "3102" then ("Zero Raised to Zero Not Defined", false)
  else if code = "3103" then ("Nothing to simplify", false)
  else if code = "3104" then ("Expression could not be reduced to terms: ", true)
  else if code = "4002" then ("Calculation already Running!", false)
  else if code = "4501" then ("Not all Settings could be saved: ", true)
  else ("Unexpected Error: ", true)

namespace Report

def ofKind (kind : ReportKind) : Report := ⟨kind, kind.defaultMessage, kind.defaultCode, none⟩

def line (report : Report) : String :=
  let (description, completed) := describeCode report.code
  errorMark ++ description ++ if completed then report.message else ""

def about (report : Report) (text : String) : Report := { report with equation? := some text }

end Report

def Fault.kind : Fault → ReportKind
  | .unknownCharacter _ => .unknownCharacter
  | .malformed _ => .malformed
  | .nestedTooDeeply => .general
  | .divisionByZero _ => .divisionByZero
  | .zeroToZero _ => .zeroToZero
  | .irreducible _ => .nothingToSimplify
  | .notFlat _ => .calculation
  | .outputFailed _ => .general

def Fault.code : Fault → String
  | .notFlat _ => "3104"
  | fault => fault.kind.defaultCode

def Fault.report (fault : Fault) : Report := ⟨fault.kind, fault.message, fault.code, none⟩

end LaurentCalc
