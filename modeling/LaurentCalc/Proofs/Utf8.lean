import LaurentCalc.Text.Utf8

/-!
# Encoded texts

The bytes of a text decode to the text: the bytes of each character are read as that
character and leave the decoder between two characters again.
-/

namespace LaurentCalc.Text.Utf8

set_option autoImplicit false

/-- Going through a byte array collects the bytes that are left. -/
theorem toList_loop (bytes : ByteArray) (i : Nat) (read : List UInt8) :
    ByteArray.toList.loop bytes i read = read.reverse ++ bytes.data.toList.drop i := by
  fun_induction ByteArray.toList.loop bytes i read with
  | case1 i read hlt ih =>
    have hget : bytes.get! i = bytes.data.toList[i] := getElem!_pos bytes.data i hlt
    rw [ih, List.reverse_cons, List.append_assoc, hget, List.singleton_append,
      List.getElem_cons_drop]
  | case2 i read hge =>
    have hle : bytes.data.toList.length ≤ i := Nat.not_lt.mp hge
    rw [List.drop_eq_nil_of_le hle, List.append_nil]

theorem encode_eq (s : String) : encode s = s.toList.flatMap String.utf8EncodeChar := by
  have hbytes : s.toUTF8 = (s.toList.flatMap String.utf8EncodeChar).toByteArray := by
    rw [← String.ofList_toList (s := s), String.toUTF8, String.toByteArray_ofList, List.utf8Encode,
      String.toList_ofList]
  rw [encode, hbytes, ByteArray.toList, toList_loop, List.toList_data_toByteArray]
  rfl

section Steps

variable {position b : Nat} {byte : UInt8} {bytes : List UInt8} {pieces : List Piece}
variable {p : Pending} {next? : Option Pending}

theorem piecesFrom_begin (hbyte : byte.toNat = b) (h : begin position b = (pieces, next?)) :
    piecesFrom position none (byte :: bytes) = pieces ++ piecesFrom (position + 1) next? bytes := by
  rw [piecesFrom, hbyte, h]

/-- The last byte of a character completes it. -/
theorem piecesFrom_last (hbyte : byte.toNat = b) (howed : p.owed = 1)
    (hbounds : p.low ≤ b ∧ b ≤ p.high) :
    piecesFrom position (some p) (byte :: bytes) =
      .character (Char.ofNat (64 * p.code + (b - 0x80))) ::
        piecesFrom (position + 1) none bytes := by
  rw [piecesFrom, hbyte, resume, if_pos hbounds, if_pos howed]
  rfl

/-- Any other byte inside a character adds six bits to it. -/
theorem piecesFrom_inner {owed : Nat} (hbyte : byte.toNat = b) (howed : p.owed = owed + 2)
    (hbounds : p.low ≤ b ∧ b ≤ p.high) :
    piecesFrom position (some p) (byte :: bytes) =
      piecesFrom (position + 1)
        (some ⟨p.first, p.position, owed + 1, 0x80, 0xBF, 64 * p.code + (b - 0x80)⟩) bytes := by
  rw [piecesFrom, hbyte, resume, if_pos hbounds, if_neg (by omega), howed]
  rfl

theorem begin_ascii (h : b < 0x80) : begin position b = ([.character (Char.ofNat b)], none) :=
  if_pos h

theorem begin_two (hlow : 0xC2 ≤ b) (hhigh : b < 0xE0) :
    begin position b = ([], some ⟨b, position, 1, 0x80, 0xBF, b - 0xC0⟩) := by
  rw [begin, if_neg (by omega), if_neg (by omega), if_pos hhigh]

theorem begin_three (hlow : 0xE0 ≤ b) (hhigh : b < 0xF0) :
    begin position b = ([], some ⟨b, position, 2, if b = 0xE0 then 0xA0 else 0x80,
      if b = 0xED then 0x9F else 0xBF, b - 0xE0⟩) := by
  rw [begin, if_neg (by omega), if_neg (by omega), if_neg (by omega), if_pos hhigh]

theorem begin_four (hlow : 0xF0 ≤ b) (hhigh : b < 0xF5) :
    begin position b = ([], some ⟨b, position, 3, if b = 0xF0 then 0x90 else 0x80,
      if b = 0xF4 then 0x8F else 0xBF, b - 0xF0⟩) := by
  rw [begin, if_neg (by omega), if_neg (by omega), if_neg (by omega), if_neg (by omega),
    if_pos hhigh]

end Steps

section Characters

variable {n : Nat} {bytes : List UInt8}

theorem toNat_byte {m : Nat} (h : m < 256) : (UInt8.ofNat m).toNat = m :=
  UInt8.toNat_ofNat_of_lt' h

/-- Every byte of a character but the first holds six bits of it. -/
theorem toNat_tail (m : Nat) : (UInt8.ofNat (m % 64 + 128)).toNat = m % 64 + 128 :=
  toNat_byte (by omega)

theorem piecesFrom_ascii (h : n ≤ 127) (position : Nat) :
    piecesFrom position none (UInt8.ofNat n :: bytes) =
      .character (Char.ofNat n) :: piecesFrom (position + 1) none bytes := by
  rw [piecesFrom_begin (toNat_byte (by omega)) (begin_ascii (by omega))]
  rfl

theorem piecesFrom_two (hlow : 127 < n) (hhigh : n ≤ 2047) (position : Nat) :
    piecesFrom position none
        (UInt8.ofNat (n / 64 % 32 + 192) :: UInt8.ofNat (n % 64 + 128) :: bytes) =
      .character (Char.ofNat n) :: piecesFrom (position + 2) none bytes := by
  have hcode : 64 * (n / 64 % 32 + 192 - 192) + (n % 64 + 128 - 128) = n := by omega
  rw [piecesFrom_begin (toNat_byte (by omega)) (begin_two (by omega) (by omega)),
    List.nil_append,
    piecesFrom_last (toNat_tail n) rfl ⟨by dsimp only; omega, by dsimp only; omega⟩, hcode]

/-- Here the second byte is bounded by what would be two bytes, and by the surrogates. -/
theorem piecesFrom_three (hlow : 2047 < n) (hhigh : n ≤ 65535)
    (hvalid : n < 0xD800 ∨ 0xDFFF < n) (position : Nat) :
    piecesFrom position none
        (UInt8.ofNat (n / 4096 % 16 + 224) :: UInt8.ofNat (n / 64 % 64 + 128) ::
          UInt8.ofNat (n % 64 + 128) :: bytes) =
      .character (Char.ofNat n) :: piecesFrom (position + 3) none bytes := by
  have hcode : 64 * (64 * (n / 4096 % 16 + 224 - 224) + (n / 64 % 64 + 128 - 128)) +
      (n % 64 + 128 - 128) = n := by omega
  rw [piecesFrom_begin (toNat_byte (by omega)) (begin_three (by omega) (by omega)),
    List.nil_append,
    piecesFrom_inner (toNat_tail (n / 64)) rfl
      ⟨by dsimp only; split <;> omega, by dsimp only; split <;> omega⟩,
    piecesFrom_last (toNat_tail n) rfl ⟨by dsimp only; omega, by dsimp only; omega⟩, hcode]

/-- Here the second byte is bounded by what would be three bytes, and by the last code point. -/
theorem piecesFrom_four (hlow : 65535 < n) (hhigh : n < 0x110000) (position : Nat) :
    piecesFrom position none
        (UInt8.ofNat (n / 262144 % 8 + 240) :: UInt8.ofNat (n / 4096 % 64 + 128) ::
          UInt8.ofNat (n / 64 % 64 + 128) :: UInt8.ofNat (n % 64 + 128) :: bytes) =
      .character (Char.ofNat n) :: piecesFrom (position + 4) none bytes := by
  have hcode : 64 * (64 * (64 * (n / 262144 % 8 + 240 - 240) + (n / 4096 % 64 + 128 - 128)) +
      (n / 64 % 64 + 128 - 128)) + (n % 64 + 128 - 128) = n := by omega
  rw [piecesFrom_begin (toNat_byte (by omega)) (begin_four (by omega) (by omega)),
    List.nil_append,
    piecesFrom_inner (toNat_tail (n / 4096)) rfl
      ⟨by dsimp only; split <;> omega, by dsimp only; split <;> omega⟩,
    piecesFrom_inner (toNat_tail (n / 64)) rfl ⟨by dsimp only; omega, by dsimp only; omega⟩,
    piecesFrom_last (toNat_tail n) rfl ⟨by dsimp only; omega, by dsimp only; omega⟩, hcode]

/-- The code points of characters leave out the surrogates. -/
theorem toNat_valid (c : Char) :
    c.toNat < 0xD800 ∨ 0xDFFF < c.toNat ∧ c.toNat < 0x110000 := c.valid

/-- The bytes of a character are read as that character. -/
theorem piecesFrom_char (position : Nat) (c : Char) (bytes : List UInt8) :
    ∃ position', piecesFrom position none (String.utf8EncodeChar c ++ bytes) =
      .character c :: piecesFrom position' none bytes := by
  have hvalid := toNat_valid c
  have hencode : String.utf8EncodeChar c =
      if c.toNat ≤ 127 then [UInt8.ofNat c.toNat]
      else if c.toNat ≤ 2047 then
        [UInt8.ofNat (c.toNat / 64 % 32 + 192), UInt8.ofNat (c.toNat % 64 + 128)]
      else if c.toNat ≤ 65535 then
        [UInt8.ofNat (c.toNat / 4096 % 16 + 224), UInt8.ofNat (c.toNat / 64 % 64 + 128),
          UInt8.ofNat (c.toNat % 64 + 128)]
      else
        [UInt8.ofNat (c.toNat / 262144 % 8 + 240), UInt8.ofNat (c.toNat / 4096 % 64 + 128),
          UInt8.ofNat (c.toNat / 64 % 64 + 128), UInt8.ofNat (c.toNat % 64 + 128)] := rfl
  have hc : Char.ofNat c.toNat = c := Char.ofNat_toNat c
  rw [hencode]
  generalize c.toNat = n at hvalid hc ⊢
  rw [← hc]
  split
  · exact ⟨_, piecesFrom_ascii (by omega) position⟩
  split
  · exact ⟨_, piecesFrom_two (by omega) (by omega) position⟩
  split
  · exact ⟨_, piecesFrom_three (by omega) (by omega) (by omega) position⟩
  · exact ⟨_, piecesFrom_four (by omega) (by omega) position⟩

end Characters

theorem piecesFrom_encoded (position : Nat) (cs : List Char) :
    piecesFrom position none (cs.flatMap String.utf8EncodeChar) = cs.map .character := by
  induction cs generalizing position with
  | nil => rfl
  | cons c cs ih =>
    obtain ⟨position', hc⟩ := piecesFrom_char position c (cs.flatMap String.utf8EncodeChar)
    rw [List.flatMap_cons, hc, ih, List.map_cons]

theorem strict_characters (cs : List Char) : strict (cs.map .character) = .ok cs := by
  induction cs with
  | nil => rfl
  | cons c cs ih =>
    rw [List.map_cons, strict, ih]
    rfl

/-- A text comes back from its bytes. -/
theorem decode_encode (s : String) : decode (encode s) = .ok s := by
  rw [decode, encode_eq, piecesFrom_encoded, strict_characters]
  exact congrArg Except.ok String.ofList_toList

end LaurentCalc.Text.Utf8
