import LaurentCalc.Text.Hex
import LaurentCalc.Text.Printable

/-!
# Quoted text

The form in which messages and tree dumps show a text. Single quotes enclose
it, unless it holds a single quote and no double quote. The enclosing quote,
the backslash and characters without a visible form are escaped.
-/

namespace LaurentCalc.Text

def enclosingQuote (cs : List Char) : Char :=
  if cs.contains '\'' && !cs.contains '"' then '"' else '\''

/-- A character without a visible form, by its code point: two, four or eight digits. -/
def escapeByNumber (c : Char) : List Char :=
  let n := c.toNat
  if n < 0x100 then '\\' :: 'x' :: hexText 2 n
  else if n < 0x10000 then '\\' :: 'u' :: hexText 4 n
  else '\\' :: 'U' :: hexText 8 n

def quotedChar (quote c : Char) : List Char :=
  if c = quote ∨ c = '\\' then ['\\', c]
  else if c = '\n' then ['\\', 'n']
  else if c = '\r' then ['\\', 'r']
  else if c = '\t' then ['\\', 't']
  else if isPrintable c then [c]
  else escapeByNumber c

def quoted (s : String) : String :=
  let cs := s.toList
  let quote := enclosingQuote cs
  String.ofList (quote :: cs.flatMap (quotedChar quote) ++ [quote])

end LaurentCalc.Text
