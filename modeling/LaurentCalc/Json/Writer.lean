import LaurentCalc.Json.Value
import LaurentCalc.Number.Shortest
import LaurentCalc.Text.Quoted

/-!
# Writing JSON

One writer for all forms of a value. A spelling fixes the words and the quoting,
a layout what stands between the items of an array or object.
-/

namespace LaurentCalc.Json

structure Spelling where
  null : String
  yes : String
  no : String
  special : Number.SpecialNames
  quote : String → List Char

/-- What surrounds and separates items, by the depth of their container. -/
structure Layout where
  before : Nat → List Char
  between : Nat → List Char
  after : Nat → List Char

def unitEscape (n : Nat) : List Char := '\\' :: 'u' :: Text.hexText 4 n

/-- A character of a string, in ASCII; one above U+FFFF becomes a surrogate pair. -/
def escapedChar (c : Char) : List Char :=
  if c = '"' ∨ c = '\\' then ['\\', c]
  else if c = '\n' then ['\\', 'n']
  else if c = '\r' then ['\\', 'r']
  else if c = '\t' then ['\\', 't']
  else if c = Char.ofNat 8 then ['\\', 'b']
  else if c = Char.ofNat 12 then ['\\', 'f']
  else
    let n := c.toNat
    if 0x20 ≤ n ∧ n < 0x7F then [c]
    else if n < 0x10000 then unitEscape n
    else unitEscape (0xD800 + (n - 0x10000) / 0x400) ++ unitEscape (0xDC00 + (n - 0x10000) % 0x400)

def quotedString (s : String) : List Char := '"' :: s.toList.flatMap escapedChar ++ ['"']

def standard : Spelling := ⟨"null", "true", "false", ⟨"NaN", "Infinity"⟩, quotedString⟩

def conversational : Spelling :=
  ⟨"None", "True", "False", ⟨"nan", "inf"⟩, fun s => (Text.quoted s).toList⟩

def oneLine : Layout := ⟨fun _ => [], fun _ => [',', ' '], fun _ => []⟩

/-- A line break and an indentation of four blanks for each level. -/
def lineAt (depth : Nat) : List Char := '\n' :: List.replicate (4 * depth) ' '

/-- One item to a line. -/
def indented : Layout :=
  ⟨fun depth => lineAt (depth + 1), fun depth => ',' :: lineAt (depth + 1), lineAt⟩

mutual

def Value.text (spelling : Spelling) (layout : Layout) (depth : Nat) : Value → List Char
  | .null => spelling.null.toList
  | .bool b => (if b then spelling.yes else spelling.no).toList
  | .integer n => n.repr.toList
  | .float x => x.text spelling.special
  | .string s => spelling.quote s
  | .array [] => ['[', ']']
  | .array (v :: items) =>
    '[' :: layout.before depth ++ v.text spelling layout (depth + 1) ++
      itemsText spelling layout depth items ++ layout.after depth ++ [']']
  | .object [] => ['{', '}']
  | .object ((key, v) :: members) =>
    '{' :: layout.before depth ++ spelling.quote key ++ ':' :: ' ' ::
      v.text spelling layout (depth + 1) ++ membersText spelling layout depth members ++
      layout.after depth ++ ['}']

def itemsText (spelling : Spelling) (layout : Layout) (depth : Nat) : List Value → List Char
  | [] => []
  | v :: items =>
    layout.between depth ++ v.text spelling layout (depth + 1) ++
      itemsText spelling layout depth items

def membersText (spelling : Spelling) (layout : Layout) (depth : Nat) : Members → List Char
  | [] => []
  | (key, v) :: members =>
    layout.between depth ++ spelling.quote key ++ ':' :: ' ' ::
      v.text spelling layout (depth + 1) ++ membersText spelling layout depth members

end

def Value.pretty (v : Value) : String := String.ofList (v.text standard indented 0)

def Value.shown (v : Value) : String := String.ofList (v.text conversational oneLine 0)

end LaurentCalc.Json
