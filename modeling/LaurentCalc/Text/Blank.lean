import LaurentCalc.Text.CharSet

/-!
# Blank characters

The characters that separate tokens and that trimming removes: the spaces and
line separators of Unicode together with the control characters U+0009 to
U+000D, U+001C to U+001F and U+0085.
-/

namespace LaurentCalc.Text

def blanks : CharSet where
  ranges := [
    (0x9, 0xD), (0x1C, 0x20), (0x85, 0x85), (0xA0, 0xA0), (0x1680, 0x1680), (0x2000, 0x200A),
    (0x2028, 0x2029), (0x202F, 0x202F), (0x205F, 0x205F), (0x3000, 0x3000)]

def isBlank (c : Char) : Bool := blanks.contains c

/-- Drops the characters at the end of a list that satisfy a test. -/
def dropTrailing (p : Char → Bool) (cs : List Char) : List Char :=
  (cs.reverse.dropWhile p).reverse

def trim (s : String) : String :=
  String.ofList (dropTrailing isBlank (s.toList.dropWhile isBlank))

def allBlank (s : String) : Bool := s.toList.all isBlank

end LaurentCalc.Text
