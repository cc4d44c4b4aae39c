import LaurentCalc.Text.Hex

/-!
# String literals

A string stands between double quotes and must not hold control characters. It
is read as code units; the halves of a surrogate pair are joined, and a half
that stands alone reads as U+FFFD.
-/

namespace LaurentCalc.Json

/-- The character that a one-letter escape stands for. -/
def escaped? (c : Char) : Option Char :=
  if c = '"' ∨ c = '\\' ∨ c = '/' then some c
  else if c = 'b' then some (Char.ofNat 8)
  else if c = 'f' then some (Char.ofNat 12)
  else if c = 'n' then some '\n'
  else if c = 'r' then some '\r'
  else if c = 't' then some '\t'
  else none

/-- The code units of a string, read behind its opening quote, and what follows the closing one. -/
def readString : List Char → Option (List Nat × List Char)
  | [] => none
  | '"' :: rest => some ([], rest)
  | '\\' :: 'u' :: a :: b :: c :: d :: rest => do
    let n ← Text.hexNumber? [a, b, c, d]
    let (units, after) ← readString rest
    return (n :: units, after)
  | '\\' :: c :: rest => do
    let e ← escaped? c
    let (units, after) ← readString rest
    return (e.toNat :: units, after)
  | c :: rest => do
    if c.toNat < 0x20 ∨ c = '\\' then none
    else
      let (units, after) ← readString rest
      return (c.toNat :: units, after)

def isHighSurrogate (n : Nat) : Bool := 0xD800 ≤ n && n < 0xDC00

def isLowSurrogate (n : Nat) : Bool := 0xDC00 ≤ n && n < 0xE000

/-- The characters that code units stand for; surrogate pairs are joined. -/
def joinSurrogates : List Nat → List Char
  | [] => []
  | [n] =>
    [if isHighSurrogate n || isLowSurrogate n then Char.ofNat 0xFFFD else Char.ofNat n]
  | n :: m :: rest =>
    if isHighSurrogate n && isLowSurrogate m then
      Char.ofNat (0x10000 + (n - 0xD800) * 0x400 + (m - 0xDC00)) :: joinSurrogates rest
    else if isHighSurrogate n || isLowSurrogate n then
      Char.ofNat 0xFFFD :: joinSurrogates (m :: rest)
    else Char.ofNat n :: joinSurrogates (m :: rest)

theorem length_readString_lt {cs after : List Char} {units : List Nat}
    (h : readString cs = some (units, after)) : after.length < cs.length := by
  fun_induction readString cs generalizing units with
  | case1 => simp at h
  | case2 rest =>
    obtain ⟨-, rfl⟩ := by simpa using h
    simp
  | case3 a b c d rest ih =>
    simp only [bind, Option.bind_eq_some_iff, pure, Option.some.injEq, Prod.mk.injEq] at h
    obtain ⟨_, _, ⟨units', after'⟩, hread, -, rfl⟩ := h
    have hlt : after'.length < rest.length := ih hread
    simp only [List.length_cons]
    omega
  | case4 c rest _ ih =>
    simp only [bind, Option.bind_eq_some_iff, pure, Option.some.injEq, Prod.mk.injEq] at h
    obtain ⟨_, _, ⟨units', after'⟩, hread, -, rfl⟩ := h
    have hlt : after'.length < rest.length := ih hread
    simp only [List.length_cons]
    omega
  | case5 c rest _ _ _ hc => simp at h
  | case6 c rest _ _ _ hc ih =>
    simp only [bind, Option.bind_eq_some_iff, pure, Option.some.injEq, Prod.mk.injEq] at h
    obtain ⟨⟨units', after'⟩, hread, -, rfl⟩ := h
    have hlt : after'.length < rest.length := ih hread
    simp only [List.length_cons]
    omega

end LaurentCalc.Json
