import LaurentCalc.Number.Binary64

/-!
# JSON values

Values with unbounded integers beside floating-point numbers, and objects whose
members keep their order. A key that is put again keeps its first place and gets
the new value.
-/

namespace LaurentCalc.Json

inductive Value where
  | null
  | bool (b : Bool)
  | integer (n : Int)
  | float (x : Number.Binary64)
  | string (s : String)
  | array (items : List Value)
  | object (members : List (String × Value))

/-- The members of an object, in order. -/
abbrev Members := List (String × Value)

namespace Members

/-- Puts a value under a key: in the place of the old value, or at the end. -/
def put (key : String) (value : Value) : Members → Members
  | [] => [(key, value)]
  | member :: rest =>
    if member.1 = key then (key, value) :: rest else member :: put key value rest

def get? (key : String) : Members → Option Value
  | [] => none
  | member :: rest => if member.1 = key then some member.2 else get? key rest

/-- The first members overridden and extended by the second, in order. -/
def override (base others : Members) : Members :=
  others.foldl (fun members member => put member.1 member.2 members) base

end Members

namespace Value

/-- Whether a value counts as true: it does unless it is null, false, zero or empty. -/
def holds : Value → Bool
  | .null => false
  | .bool b => b
  | .integer n => n ≠ 0
  | .float x => !x.isZero
  | .string s => s ≠ ""
  | .array items => !items.isEmpty
  | .object members => !members.isEmpty

/-- Whether a value equals true: the number one does, too. -/
def isTrue : Value → Bool
  | .bool b => b
  | .integer n => n = 1
  | .float x => x.isOne
  | _ => false

def typeName : Value → String
  | .null => "NoneType"
  | .bool _ => "bool"
  | .integer _ => "int"
  | .float _ => "float"
  | .string _ => "str"
  | .array _ => "list"
  | .object _ => "dict"

mutual

def depth : Value → Nat
  | .array items => itemsDepth items + 1
  | .object members => membersDepth members + 1
  | _ => 0

def itemsDepth : List Value → Nat
  | [] => 0
  | v :: items => max v.depth (itemsDepth items)

def membersDepth : List (String × Value) → Nat
  | [] => 0
  | (_, v) :: members => max v.depth (membersDepth members)

end

end Value

end LaurentCalc.Json
