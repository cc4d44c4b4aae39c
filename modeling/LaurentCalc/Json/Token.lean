import LaurentCalc.Json.Literal
import LaurentCalc.Json.Numeral

/-!
# Tokens of JSON texts

Punctuation, strings, numbers and words. Beside the numerals of the standard the
words `NaN`, `Infinity` and `-Infinity` are numbers.
-/

namespace LaurentCalc.Json

inductive Token where
  | openBrace
  | closeBrace
  | openBracket
  | closeBracket
  | colon
  | comma
  | string (s : String)
  | scalar (v : Value)

def isBlank (c : Char) : Bool := c = ' ' || c = '\t' || c = '\n' || c = '\r'

/-- What follows a word at the beginning of a text. -/
def afterWord? (word : List Char) (cs : List Char) : Option (List Char) :=
  if word.isPrefixOf cs then some (cs.drop word.length) else none

/-- The scalar words. -/
def words : List (List Char × Value) :=
  [(['n', 'u', 'l', 'l'], .null), (['t', 'r', 'u', 'e'], .bool true),
    (['f', 'a', 'l', 's', 'e'], .bool false), (['N', 'a', 'N'], .float .nan),
    (['I', 'n', 'f', 'i', 'n', 'i', 't', 'y'], .float (.infinite false)),
    (['-', 'I', 'n', 'f', 'i', 'n', 'i', 't', 'y'], .float (.infinite true))]

def readWord (cs : List Char) : Option (Value × List Char) :=
  words.findSome? fun (word, v) => (afterWord? word cs).map (v, ·)

/-- The token at the beginning of a text that does not begin with a blank, and what follows it. -/
def readToken : List Char → Option (Token × List Char)
  | [] => none
  | '{' :: rest => some (.openBrace, rest)
  | '}' :: rest => some (.closeBrace, rest)
  | '[' :: rest => some (.openBracket, rest)
  | ']' :: rest => some (.closeBracket, rest)
  | ':' :: rest => some (.colon, rest)
  | ',' :: rest => some (.comma, rest)
  | '"' :: rest => do
    let (units, after) ← readString rest
    return (.string (String.ofList (joinSurrogates units)), after)
  | cs => do
    let (v, after) ← readWord cs <|> readNumber cs
    return (.scalar v, after)

theorem length_readWord_lt {cs after : List Char} {v : Value}
    (h : readWord cs = some (v, after)) : after.length < cs.length := by
  obtain ⟨⟨word, w⟩, hmem, h⟩ := List.exists_of_findSome?_eq_some h
  simp only [afterWord?, Option.map_eq_some_iff, Prod.mk.injEq] at h
  obtain ⟨a, ha, -, rfl⟩ := h
  split at ha
  · rename_i hword
    obtain ⟨tail, rfl⟩ := List.isPrefixOf_iff_prefix.mp hword
    cases ha
    have hpos : 0 < word.length := by
      simp only [words, List.mem_cons, Prod.mk.injEq, List.not_mem_nil, or_false] at hmem
      rcases hmem with ⟨rfl, -⟩ | ⟨rfl, -⟩ | ⟨rfl, -⟩ | ⟨rfl, -⟩ | ⟨rfl, -⟩ | ⟨rfl, -⟩ <;> decide
    simp only [List.drop_left, List.length_append]
    omega
  · simp at ha

theorem length_readToken_lt {cs after : List Char} {token : Token}
    (h : readToken cs = some (token, after)) : after.length < cs.length := by
  unfold readToken at h
  split at h
  case h_8 rest =>
    simp only [bind, Option.bind_eq_some_iff, pure, Option.some.injEq, Prod.mk.injEq] at h
    obtain ⟨⟨units, after'⟩, hread, -, rfl⟩ := h
    exact Nat.lt_succ_of_lt (length_readString_lt hread)
  case h_9 =>
    simp only [bind, Option.bind_eq_some_iff, pure, Option.some.injEq, Prod.mk.injEq] at h
    obtain ⟨⟨v, after'⟩, hread, -, rfl⟩ := h
    cases hword : readWord cs with
    | none => exact length_readNumber_lt (by simpa [hword] using hread)
    | some p =>
      obtain ⟨v', rest⟩ := p
      obtain ⟨rfl, rfl⟩ := by simpa [hword] using hread
      exact length_readWord_lt hword
  case h_1 => simp at h
  all_goals
    obtain ⟨-, rfl⟩ := by simpa using h
    simp

end LaurentCalc.Json
