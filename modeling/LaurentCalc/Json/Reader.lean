import LaurentCalc.Json.Token

/-!
# Reading JSON

A text is read token by token with a stack of the arrays and objects that are
still open. The whole text has to be one value. Only so many containers may be
open at a time, and the first thing wrong with a text decides how it fails: one
that opens too many containers is not looked at any further.
-/

namespace LaurentCalc.Json

inductive ReadFault where
  | malformed
  | nestedTooDeeply
  deriving DecidableEq

/-- An array or object that is still open, with the items or members so far; those of an array are
kept in reverse order. -/
inductive Container where
  | array (items : List Value)
  | object (members : Members)
  | member (members : Members) (key : String)

/-- What is to come next, inside the open containers. -/
inductive Awaited where
  | value
  | valueOrEnd
  | key
  | keyOrEnd
  | colon (key : String)
  | separator (v : Value)

structure Reading where
  containers : List Container
  awaited : Awaited

namespace Reading

def start : Reading := ⟨[], .value⟩

/-- The state after a bracket that opens a container. -/
def enter (limit : Nat) (containers : List Container) (container : Container)
    (awaited : Awaited) : Except ReadFault Reading :=
  if containers.length < limit then .ok ⟨container :: containers, awaited⟩
  else .error .nestedTooDeeply

/-- The state after a token that begins a value. -/
def beginValue (limit : Nat) (containers : List Container) : Token → Except ReadFault Reading
  | .openBrace => enter limit containers (.object []) .keyOrEnd
  | .openBracket => enter limit containers (.array []) .valueOrEnd
  | .string s => .ok ⟨containers, .separator (.string s)⟩
  | .scalar v => .ok ⟨containers, .separator v⟩
  | _ => .error .malformed

/-- The state after a token that follows a value. -/
def afterValue (v : Value) : List Container → Token → Except ReadFault Reading
  | .array items :: containers, .comma => .ok ⟨.array (v :: items) :: containers, .value⟩
  | .array items :: containers, .closeBracket =>
    .ok ⟨containers, .separator (.array (v :: items).reverse)⟩
  | .member members key :: containers, .comma =>
    .ok ⟨.object (Members.put key v members) :: containers, .key⟩
  | .member members key :: containers, .closeBrace =>
    .ok ⟨containers, .separator (.object (Members.put key v members))⟩
  | _, _ => .error .malformed

/-- The state after one more token, unless the token cannot stand there or goes too deep. -/
def step (limit : Nat) (r : Reading) (token : Token) : Except ReadFault Reading :=
  match r.awaited, r.containers, token with
  | .value, containers, token => beginValue limit containers token
  | .valueOrEnd, .array _ :: containers, .closeBracket => .ok ⟨containers, .separator (.array [])⟩
  | .valueOrEnd, containers, token => beginValue limit containers token
  | .key, containers, .string key => .ok ⟨containers, .colon key⟩
  | .keyOrEnd, containers, .string key => .ok ⟨containers, .colon key⟩
  | .keyOrEnd, .object _ :: containers, .closeBrace => .ok ⟨containers, .separator (.object [])⟩
  | .colon key, .object members :: containers, .colon =>
    .ok ⟨.member members key :: containers, .value⟩
  | .separator v, containers, token => afterValue v containers token
  | _, _, _ => .error .malformed

def value : Reading → Except ReadFault Value
  | ⟨[], .separator v⟩ => .ok v
  | _ => .error .malformed

/-- The value that is complete at the end of the text. -/
def finish (limit : Nat) (r : Reading) : List Char → Except ReadFault Value
  | [] => r.value
  | c :: rest =>
    if isBlank c then finish limit r rest
    else
      match _h : readToken (c :: rest) with
      | none => .error .malformed
      | some (token, after) =>
        match r.step limit token with
        | .error fault => .error fault
        | .ok next => finish limit next after
termination_by cs => cs.length
decreasing_by
  · simp
  · exact length_readToken_lt _h

end Reading

/-- The value that a text denotes, if it is well-formed and nests no deeper than the limit. -/
def read (limit : Nat) (text : String) : Except ReadFault Value :=
  Reading.start.finish limit text.toList

end LaurentCalc.Json
