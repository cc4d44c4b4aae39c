import LaurentCalc.Json.Value

/-!
# Numerals

A number without fraction and exponent is an unbounded integer, any other a
floating-point number. What cannot belong to a numeral is left behind it.
-/

namespace LaurentCalc.Json

def isDigit (c : Char) : Bool := '0' ≤ c && c ≤ '9'

def digitsValue (cs : List Char) : Nat := Nat.ofDigitChars 10 cs 0

/-- The digits behind a decimal point, if there is one with digits. -/
def readFraction : List Char → Option (List Char) × List Char
  | '.' :: rest =>
    match rest.takeWhile isDigit with
    | [] => (none, '.' :: rest)
    | digits => (some digits, rest.dropWhile isDigit)
  | cs => (none, cs)

def readSign : List Char → Bool × List Char
  | '+' :: rest => (false, rest)
  | '-' :: rest => (true, rest)
  | cs => (false, cs)

/-- The exponent of a number, if there is one with digits. -/
def readExponent : List Char → Option Int × List Char
  | c :: rest =>
    if c = 'e' ∨ c = 'E' then
      let (negative, rest') := readSign rest
      match rest'.takeWhile isDigit with
      | [] => (none, c :: rest)
      | digits =>
        let n : Int := digitsValue digits
        (some (if negative then -n else n), rest'.dropWhile isDigit)
    else (none, c :: rest)
  | [] => (none, [])

/-- The digits of a whole number without a superfluous zero in front, and what follows them. -/
def readWhole : List Char → Option (List Char × List Char)
  | [] => none
  | c :: rest =>
    if c = '0' then some ([c], rest)
    else if isDigit c then some (c :: rest.takeWhile isDigit, rest.dropWhile isDigit)
    else none

/-- A number, its sign already read: an integer, or a floating-point number if it has a fraction or
an exponent. -/
def readUnsigned (negative : Bool) (cs : List Char) : Option (Value × List Char) := do
  let (whole, rest) ← readWhole cs
  match readFraction rest with
  | (none, rest) =>
    match readExponent rest with
    | (none, rest) =>
      let n : Int := digitsValue whole
      return (.integer (if negative then -n else n), rest)
    | (some e, rest) => return (.float (.ofDecimal negative (digitsValue whole) e), rest)
  | (some fraction, rest) =>
    let (e?, rest) := readExponent rest
    let digits := digitsValue (whole ++ fraction)
    return (.float (.ofDecimal negative digits (e?.getD 0 - fraction.length)), rest)

def readNumber : List Char → Option (Value × List Char)
  | '-' :: rest => readUnsigned true rest
  | cs => readUnsigned false cs

theorem length_dropWhile_le (p : Char → Bool) (cs : List Char) :
    (cs.dropWhile p).length ≤ cs.length :=
  (List.dropWhile_suffix p).length_le

theorem length_readWhole_lt {cs digits after : List Char}
    (h : readWhole cs = some (digits, after)) : after.length < cs.length := by
  unfold readWhole at h
  split at h
  · simp at h
  · rename_i c rest
    have hle := length_dropWhile_le isDigit rest
    split at h
    · obtain ⟨-, rfl⟩ := by simpa using h
      simp
    · split at h
      · obtain ⟨-, rfl⟩ := by simpa using h
        simp only [List.length_cons]
        omega
      · simp at h

theorem length_readFraction_le (cs : List Char) : (readFraction cs).2.length ≤ cs.length := by
  unfold readFraction
  split
  · rename_i rest
    have hle := length_dropWhile_le isDigit rest
    split
    · simp
    · simp only [List.length_cons]
      omega
  · simp

theorem length_readSign_le (cs : List Char) : (readSign cs).2.length ≤ cs.length := by
  unfold readSign
  split <;> simp

theorem length_readExponent_le (cs : List Char) : (readExponent cs).2.length ≤ cs.length := by
  unfold readExponent
  split
  · rename_i c rest
    split
    · have hsign := length_readSign_le rest
      have hle := length_dropWhile_le isDigit (readSign rest).2
      dsimp only
      split
      · simp
      · simp only [List.length_cons]
        omega
    · simp
  · simp

theorem length_readUnsigned_lt {negative : Bool} {cs after : List Char} {v : Value}
    (h : readUnsigned negative cs = some (v, after)) : after.length < cs.length := by
  simp only [readUnsigned, bind, Option.bind_eq_some_iff] at h
  obtain ⟨⟨whole, rest⟩, hwhole, h⟩ := h
  have hlt := length_readWhole_lt hwhole
  have hfraction := length_readFraction_le rest
  split at h
  · rename_i hf
    rw [hf] at hfraction
    have hexponent := length_readExponent_le (readFraction rest).2
    rw [hf] at hexponent
    split at h
    · rename_i he
      rw [he] at hexponent
      obtain ⟨-, rfl⟩ := by simpa [pure] using h
      simp only at *
      omega
    · rename_i he
      rw [he] at hexponent
      obtain ⟨-, rfl⟩ := by simpa [pure] using h
      simp only at *
      omega
  · rename_i fraction rest' hf
    rw [hf] at hfraction
    have hexponent := length_readExponent_le rest'
    obtain ⟨-, rfl⟩ := by simpa [pure] using h
    simp only at *
    omega

theorem length_readNumber_lt {cs after : List Char} {v : Value}
    (h : readNumber cs = some (v, after)) : after.length < cs.length := by
  unfold readNumber at h
  split at h
  · exact Nat.lt_succ_of_lt (length_readUnsigned_lt h)
  · exact length_readUnsigned_lt h

end LaurentCalc.Json
