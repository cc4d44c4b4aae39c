import LaurentCalc.Json.Reader
import LaurentCalc.Json.Writer
import LaurentCalc.Text.Utf8

/-!
# Settings

Settings are an object kept in a file, and every known setting has a default. A
file that is missing or malformed counts as empty; one that exists and cannot be
read does not. A second file describes the settings; it has no defaults. Values
that nest too deeply are not read, and not written to their end.
-/

namespace LaurentCalc

open Json (Value Members)

/-- What is found where a file is looked for. -/
inductive FileState where
  | absent
  | directory
  | unreadable
  | bytes (content : List UInt8)
  deriving DecidableEq

/-- Why a file of settings or descriptions cannot be used. -/
inductive FileFault where
  | isDirectory
  | notPermitted
  | undecodable (fault : Text.Utf8.Fault)
  | nestedTooDeeply
  | notMapping (typeName : String)
  | noLookup (typeName : String)
  deriving DecidableEq

def FileFault.message? : FileFault → Option String
  | .isDirectory | .notPermitted | .nestedTooDeeply => none
  | .undecodable fault => some fault.message
  | .notMapping typeName => some ("'" ++ typeName ++ "' object is not a mapping")
  | .noLookup typeName => some ("'" ++ typeName ++ "' object has no attribute 'get'")

/-- The value that a file holds; nothing if it is missing or malformed. -/
def FileState.value? (limit : Nat) : FileState → Except FileFault (Option Value)
  | .absent => .ok none
  | .directory => .error .isDirectory
  | .unreadable => .error .notPermitted
  | .bytes content =>
    match Text.Utf8.decode content with
    | .error fault => .error (.undecodable fault)
    | .ok text =>
      match Json.read limit text with
      | .ok v => .ok (some v)
      | .error .malformed => .ok none
      | .error .nestedTooDeeply => .error .nestedTooDeeply

namespace Settings

def defaults : Members :=
  [("darkmode", .bool false), ("show_equation", .bool true), ("copy_result", .bool false),
    ("debug", .bool false), ("prompt", .string ">>> ")]

/-- The key that stands for all settings together. -/
def everything : String := "all"

/-- The settings that a file holds, over the defaults. -/
def load (limit : Nat) (file : FileState) : Except FileFault Members := do
  match ← file.value? limit with
  | none => return defaults
  | some (.object members) => return Members.override defaults members
  | some v => .error (.notMapping v.typeName)

/-- The value of one setting, zero if there is none, or all settings as an object. -/
def loadValue (limit : Nat) (file : FileState) (key : String) : Except FileFault Value := do
  let settings ← load limit file
  if key = everything then return .object settings
  else return (settings.get? key).getD (.integer 0)

/-- The description of one setting, empty if there is none, or all descriptions. -/
def describe (limit : Nat) (file : FileState) (key : String) : Except FileFault Value := do
  match ← file.value? limit with
  | none => return if key = everything then .object [] else .string ""
  | some v =>
    if key = everything then return v
    else
      match v with
      | .object members => return (Members.get? key members).getD (.string "")
      | other => .error (.noLookup other.typeName)

end Settings

structure Rights where
  readable : Bool
  writable : Bool
  deriving DecidableEq

/-- Where the settings are looked for: in a file that may exist, in a folder that does not exist, or
where a directory stands. -/
inductive Place where
  | file (rights : Rights)
  | missing
  | directory
  deriving DecidableEq

def Place.writable : Place → Bool
  | .file rights => rights.writable
  | .missing | .directory => false

/-- The two files, and where the settings are looked for. -/
structure Store where
  settings? : Option (List UInt8)
  descriptions? : Option (List UInt8)
  place : Place

namespace Store

def empty : Store := ⟨none, none, .file ⟨true, true⟩⟩

def fileState : Option (List UInt8) → FileState
  | none => .absent
  | some content => .bytes content

def settingsFile (store : Store) : FileState :=
  match store.place with
  | .file rights =>
    if rights.readable ∨ store.settings? = none then fileState store.settings? else .unreadable
  | .missing => .absent
  | .directory => .directory

def descriptionsFile (store : Store) : FileState := fileState store.descriptions?

/-- Writes a value as the settings and hands it back. A file that cannot be opened for writing stays
as it is, and one that there is not room enough for is cut off; then an empty object is handed
back. The file is cut off, too, if the value turns out to nest too deeply. -/
def save (limit : Nat) (room? : Option Nat) (store : Store) (v : Value) :
    Except FileFault Value × Store :=
  if store.place.writable then
    let content := Text.Utf8.encode v.pretty
    let cut := { store with settings? := some (content.take (room?.getD 0)) }
    if limit < v.depth then (.error .nestedTooDeeply, cut)
    else if room?.all (content.length ≤ ·) then (.ok v, { store with settings? := some content })
    else (.ok (.object []), cut)
  else (.ok (.object []), store)

end Store

end LaurentCalc
