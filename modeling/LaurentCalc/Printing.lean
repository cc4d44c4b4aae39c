import LaurentCalc.Evaluation
import LaurentCalc.Expr.Flat

/-!
# Printing

An evaluation as it goes along. It prints the lines of its trace one by one, each when
it comes to it, on an output that may fail. A line that cannot be printed ends the
evaluation there, and so does a tree that is too high for its text to be put together.
-/

namespace LaurentCalc

/-- The failure of an output at each line, counted from zero; nothing where the line is printed. -/
abbrev Printer := Nat → Option String

namespace Printer

def working : Printer := fun _ => none

def failingAfter (count : Nat) (reason : String) : Printer :=
  fun printed => if printed < count then none else some reason

end Printer

/-- A computation that may print: it has ended, or it prints a line and goes on. -/
inductive Printing (α : Type) where
  | done (outcome : Except Fault α)
  | print (line : String) (next : Printing α)

namespace Printing

variable {α β : Type}

def andThen (x : Printing α) (f : α → Printing β) : Printing β :=
  match x with
  | .done (.ok a) => f a
  | .done (.error fault) => .done (.error fault)
  | .print line next => .print line (next.andThen f)

instance : Monad Printing where
  pure a := .done (.ok a)
  bind := andThen

def printLine (line : String) : Printing Unit := .print line (.done (.ok ()))

/-- The lines that a computation prints, behind the given number of lines printed before, and how
it ends. -/
def runOn (printer : Printer) : Printing String → (printed : Nat) → Evaluation
  | .done outcome, _ => ⟨[], outcome⟩
  | .print line next, printed =>
    match printer printed with
    | none => (next.runOn printer (printed + 1)).after [line]
    | some reason => ⟨[], .error (.outputFailed reason)⟩

@[simp] theorem pure_eq_done (a : α) : (pure a : Printing α) = .done (.ok a) := rfl

@[simp] theorem done_ok_bind (a : α) (f : α → Printing β) : .done (.ok a) >>= f = f a := rfl

@[simp] theorem done_error_bind (fault : Fault) (f : α → Printing β) :
    .done (.error fault) >>= f = .done (.error fault) := rfl

@[simp] theorem printLine_bind (line : String) (f : Unit → Printing β) :
    printLine line >>= f = .print line (f ()) := rfl

end Printing

namespace Expr

/-- The text of a tree, unless it is too high to be printed. -/
def dumpWithin (limit : Nat) (e : Expr) : Except Fault String :=
  if e.height ≤ limit then .ok e.dump else .error .nestedTooDeeply

def flatten (e : Expr) : Except Fault TermSum := e.toSum.mapError Fault.notFlat

end Expr

namespace Evaluation

open Printing (printLine)

/-- The evaluation of a text step by step, with or without tracing. -/
def steps (limit : Nat) (debug : Bool) (text : String) : Printing String := do
  let e ← .done (Expr.parse (callLimit limit) text)
  if debug then
    printLine "Parsed AST:"
    printLine (← .done (e.dumpWithin limit))
  match (e.simplifyWithin limit).map TermSum.toExpr with
  | .ok simplified =>
    if debug then
      printLine "Simplified AST:"
      printLine (← .done (simplified.dumpWithin limit))
      let p ← .done simplified.flatten
      printLine ("Terms: [" ++ ", ".intercalate (p.terms.map Term.dump) ++ "]")
    let p ← .done simplified.flatten
    return p.render
  | .error (.irreducible _) =>
    if debug then
      printLine "Nothing to simplify, echoing input."
    return text
  | .error fault => .done (.error fault)

end Evaluation

def evaluateOn (printer : Printer) (limit : Nat) (debug : Bool) (text : String) : Evaluation :=
  (Evaluation.steps limit debug text).runOn printer 0

end LaurentCalc
