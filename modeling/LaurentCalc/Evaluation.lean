import LaurentCalc.Canonical
import LaurentCalc.Parser
import LaurentCalc.Reach
import LaurentCalc.Report

/-!
# Evaluation

The way from a text to its canonical form. A text that no rule applies to is its
own result. With tracing on, an evaluation also writes lines about the tree that
was read and the sum that it was reduced to.
-/

namespace LaurentCalc

/-- How many levels of a tree can be printed, and how many arrays and objects may be open. -/
def nestingLimit : Nat := 400

/-- How many phrases may be open and how many levels of a tree can be reduced where the given number
of levels can be printed: printing takes three calls for a level, reading and reducing take two. -/
def callLimit (limit : Nat) : Nat := limit + limit / 2

theorem le_callLimit (limit : Nat) : limit ≤ callLimit limit := Nat.le_add_right _ _

/-- The fault, unless the tree that its message shows is too high to be printed. -/
def Fault.within (limit : Nat) (fault : Fault) : Fault :=
  if fault.shown?.any (limit < ·.height) then .nestedTooDeeply else fault

namespace Expr

def simplify (e : Expr) : Except Fault TermSum :=
  match e.reduce with
  | .ok p => .ok p
  | .error obstacle => .error (.ofObstacle e obstacle)

/-- Whether the calls suffice to reduce an expression. How far down its reduction gets is worked out
only for a tree that is higher. -/
def fitsCalls (limit : Nat) (e : Expr) : Bool :=
  e.height ≤ callLimit limit || !e.overruns (callLimit limit)

/-- What an expression is simplified to, unless the calls do not suffice to reduce it or to say what
is wrong with it. -/
def simplifyWithin (limit : Nat) (e : Expr) : Except Fault TermSum :=
  if e.fitsCalls limit then e.simplify.mapError (Fault.within limit) else .error .nestedTooDeeply

/-- The tree of a text, unless it nests too deeply to be printed. -/
def parseWithin (limit : Nat) (text : String) : Except Fault Expr := do
  let e ← Expr.parse limit text
  if e.height ≤ limit then return e else .error .nestedTooDeeply

end Expr

structure Evaluation where
  lines : List String
  outcome : Except Fault String

namespace Evaluation

def parsedLines (e : Expr) : List String := ["Parsed AST:", e.dump]

def simplifiedLines (p : TermSum) : List String :=
  ["Simplified AST:", p.toExpr.dump, "Terms: [" ++ ", ".intercalate (p.terms.map Term.dump) ++ "]"]

def echoLines : List String := ["Nothing to simplify, echoing input."]

def after (lines : List String) (evaluation : Evaluation) : Evaluation :=
  ⟨lines ++ evaluation.lines, evaluation.outcome⟩

/-- The evaluation of a text from what its tree has been simplified to. -/
def ofSimplified (debug : Bool) (text : String) : Except Fault TermSum → Evaluation
  | .ok p => ⟨if debug then simplifiedLines p else [], .ok p.render⟩
  | .error (.irreducible _) => ⟨if debug then echoLines else [], .ok text⟩
  | .error fault => ⟨[], .error fault⟩

/-- The same evaluation where output fails once the given number of lines has been written. -/
def withFailingOutput (written : Nat) (reason : String) (evaluation : Evaluation) : Evaluation :=
  if evaluation.lines.length ≤ written then evaluation
  else ⟨evaluation.lines.take written, .error (.outputFailed reason)⟩

/-- What leaves the calculator: the result, or the report of the fault, which names the text. -/
def reported (text : String) (evaluation : Evaluation) : Except Report String :=
  evaluation.outcome.mapError fun fault => fault.report.about text

theorem reported_eq_ok_iff {text result : String} {evaluation : Evaluation} :
    evaluation.reported text = .ok result ↔ evaluation.outcome = .ok result := by
  unfold reported
  cases evaluation.outcome with
  | ok found =>
    constructor
    · intro h
      exact congrArg Except.ok (Except.ok.inj h)
    · intro h
      exact congrArg Except.ok (Except.ok.inj h)
  | error fault =>
    constructor
    · intro h
      cases h
    · intro h
      cases h

theorem reported_eq_error_iff {text : String} {report : Report} {evaluation : Evaluation} :
    evaluation.reported text = .error report ↔
      ∃ fault : Fault, evaluation.outcome = .error fault ∧ fault.report.about text = report := by
  unfold reported
  cases evaluation.outcome with
  | ok found =>
    constructor
    · intro h
      cases h
    · rintro ⟨fault, h, -⟩
      cases h
  | error fault =>
    constructor
    · intro h
      exact ⟨fault, rfl, Except.error.inj h⟩
    · rintro ⟨fault', h, rfl⟩
      cases h
      rfl

def answer (evaluation : Evaluation) : String :=
  match evaluation.outcome with
  | .ok result => result
  | .error fault => fault.report.line

end Evaluation

/-- The evaluation of a text, with or without tracing. The calls that printing the trace takes are
not counted here; `evaluateOn` counts them. -/
def evaluate (limit : Nat) (debug : Bool) (text : String) : Evaluation :=
  match Expr.parse (callLimit limit) text with
  | .error fault => ⟨[], .error fault⟩
  | .ok e =>
    (Evaluation.ofSimplified debug text (e.simplifyWithin limit)).after
      (if debug then Evaluation.parsedLines e else [])

end LaurentCalc
