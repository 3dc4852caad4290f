/-
KDown/PercentEncoding.lean

Texts as UTF-8 bytes, and bytes as percent-encoded text.

`encodeBytes keep` writes every byte either as the ASCII character it is, where
`keep` allows that, or as a percent sign and two hexadecimal digits.  Decoding
is strict: a percent sign without two digits behind it rejects the whole text.
Whatever characters are kept, other than the percent sign, decoding is the
inverse (`percentDecodeStrict_encodeBytes`), and so a text comes back from the
encoding of its UTF-8 bytes (`decodeText_encodeText`).
-/
import Mathlib.Data.Nat.Bitwise

namespace KDown

/-! ### Bytes of a text -/

/-- The UTF-8 bytes of a text. -/
def utf8Bytes (cs : List Char) : List UInt8 := cs.flatMap String.utf8EncodeChar

/-- The text of some bytes, if they are well-formed UTF-8. -/
def fromUtf8 (bytes : List UInt8) : Option (List Char) :=
  bytes.toByteArray.utf8Decode?.map Array.toList

@[simp] theorem utf8Bytes_append (a b : List Char) :
    utf8Bytes (a ++ b) = utf8Bytes a ++ utf8Bytes b := List.flatMap_append

theorem fromUtf8_utf8Bytes (cs : List Char) : fromUtf8 (utf8Bytes cs) = some cs := by
  have h : cs.utf8Encode.utf8Decode? = some cs.toArray := List.utf8Decode?_utf8Encode
  show (cs.utf8Encode.utf8Decode?).map Array.toList = some cs
  rw [h, Option.map_some]

theorem toNat_ofNat_ascii : ∀ n < 128, (Char.ofNat n).toNat = n := by decide

/-- An ASCII character is one byte. -/
theorem utf8EncodeChar_ascii {c : Char} (h : c.toNat < 128) :
    String.utf8EncodeChar c = [UInt8.ofNat c.toNat] := by
  have hval : c.val.toNat ≤ 0x7f := Nat.le_of_lt_succ h
  rw [String.utf8EncodeChar]
  simp only [if_pos hval]
  rfl

theorem utf8Bytes_cons_ascii {c : Char} (h : c.toNat < 128) (cs : List Char) :
    utf8Bytes (c :: cs) = UInt8.ofNat c.toNat :: utf8Bytes cs := by
  rw [utf8Bytes, List.flatMap_cons, utf8EncodeChar_ascii h]
  rfl

/-! ### Hexadecimal digits -/

/-- The value of a digit of either case. -/
def hexDigitValue (b : UInt8) : Option ℕ :=
  let n := b.toNat
  if 0x30 ≤ n ∧ n ≤ 0x39 then some (n - 0x30)
  else if 0x41 ≤ n ∧ n ≤ 0x46 then some (n - 0x41 + 10)
  else if 0x61 ≤ n ∧ n ≤ 0x66 then some (n - 0x61 + 10)
  else none

/-- The uppercase digit of a value. -/
def upperHexDigit (n : ℕ) : Char := Char.ofNat (if n < 10 then 0x30 + n else 0x41 + (n - 10))

/-- A digit is printed, is one of the first 128 characters, and is read back. -/
theorem upperHexDigit_spec : ∀ n < 16, (upperHexDigit n).isAlphanum = true ∧
    (upperHexDigit n).toNat < 128 ∧
    hexDigitValue (UInt8.ofNat (upperHexDigit n).toNat) = some n := by
  decide

/-! ### Percent encoding -/

/-- Decode; a malformed escape rejects the text. -/
def percentDecodeStrict : List UInt8 → Option (List UInt8)
  | [] => some []
  | b :: rest =>
      if b = 0x25 then
        match rest with
        | h :: l :: rest =>
            (hexDigitValue h).bind fun high => (hexDigitValue l).bind fun low =>
              (percentDecodeStrict rest).map (UInt8.ofNat (high <<< 4 ||| low) :: ·)
        | _ => none
      else (percentDecodeStrict rest).map (b :: ·)

/-- One byte: itself as a character, or an escape. -/
def encodeByte (keep : Char → Bool) (b : UInt8) : List Char :=
  let c := Char.ofNat b.toNat
  if b.toNat < 128 ∧ keep c = true then [c]
  else ['%', upperHexDigit (b.toNat / 16), upperHexDigit (b.toNat % 16)]

/-- Every byte that is not kept is encoded. -/
def encodeBytes (keep : Char → Bool) (bytes : List UInt8) : List Char :=
  bytes.flatMap (encodeByte keep)

/-- The bytes of a text, encoded. -/
def encodeText (keep : Char → Bool) (cs : List Char) : List Char := encodeBytes keep (utf8Bytes cs)

/-- Every character of an encoding is kept, a percent sign or a digit. -/
theorem mem_encodeBytes {keep : Char → Bool} {bytes : List UInt8} {c : Char}
    (h : c ∈ encodeBytes keep bytes) : keep c = true ∨ c = '%' ∨ c.isAlphanum = true := by
  obtain ⟨b, -, hc⟩ := List.mem_flatMap.mp h
  have hb : b.toNat < 256 := b.toNat_lt
  rw [encodeByte] at hc
  split_ifs at hc with hkeep
  · rw [List.mem_singleton.mp hc]
    exact .inl hkeep.2
  · simp only [List.mem_cons, List.not_mem_nil, or_false] at hc
    rcases hc with rfl | rfl | rfl
    · exact .inr (.inl rfl)
    · exact .inr (.inr (upperHexDigit_spec _ (by omega)).1)
    · exact .inr (.inr (upperHexDigit_spec _ (by omega)).1)

/-- One encoded byte in front of other bytes. -/
theorem percentDecodeStrict_encodeByte {keep : Char → Bool} (hkeep : keep '%' = false) (b : UInt8)
    (rest : List UInt8) :
    percentDecodeStrict (utf8Bytes (encodeByte keep b) ++ rest) =
      (percentDecodeStrict rest).map (b :: ·) := by
  have hb : b.toNat < 256 := b.toNat_lt
  rw [encodeByte]
  split_ifs with h
  · -- the byte itself, which is no percent sign
    have hnat : (Char.ofNat b.toNat).toNat = b.toNat := toNat_ofNat_ascii _ h.1
    have hbytes : utf8Bytes [Char.ofNat b.toNat] = [b] := by
      rw [utf8Bytes_cons_ascii (by rw [hnat]; exact h.1), hnat, UInt8.ofNat_toNat]
      rfl
    have hne : b ≠ 0x25 := by
      rintro rfl
      have hpercent : keep '%' = true := h.2
      rw [hkeep] at hpercent
      cases hpercent
    rw [hbytes, List.singleton_append, percentDecodeStrict.eq_def]
    simp only [hne, if_false]
  · -- an escape, read back digit by digit
    obtain ⟨-, hhigh, hhigh'⟩ := upperHexDigit_spec (b.toNat / 16) (by omega)
    obtain ⟨-, hlow, hlow'⟩ := upperHexDigit_spec (b.toNat % 16) (by omega)
    have hvalue : UInt8.ofNat ((b.toNat / 16) <<< 4 ||| b.toNat % 16) = b := by
      rw [← Nat.shiftLeft_add_eq_or_of_lt (by omega), Nat.shiftLeft_eq]
      have hsum : b.toNat / 16 * 2 ^ 4 + b.toNat % 16 = b.toNat := by omega
      rw [hsum, UInt8.ofNat_toNat]
    rw [utf8Bytes_cons_ascii (by decide), utf8Bytes_cons_ascii hhigh, utf8Bytes_cons_ascii hlow]
    show percentDecodeStrict (0x25 :: _ :: _ :: rest) = _
    rw [percentDecodeStrict]
    simp only [if_true, hhigh', hlow', Option.bind_some, hvalue]

/-- **Decoding is the inverse of encoding.** -/
theorem percentDecodeStrict_encodeBytes {keep : Char → Bool} (hkeep : keep '%' = false)
    (bytes : List UInt8) :
    percentDecodeStrict (utf8Bytes (encodeBytes keep bytes)) = some bytes := by
  induction bytes with
  | nil => rfl
  | cons b bytes ih =>
    rw [encodeBytes, List.flatMap_cons, utf8Bytes_append, percentDecodeStrict_encodeByte hkeep,
      ← encodeBytes, ih, Option.map_some]

/-- **A text comes back from its encoding.** -/
theorem decodeText_encodeText {keep : Char → Bool} (hkeep : keep '%' = false) (cs : List Char) :
    (percentDecodeStrict (utf8Bytes (encodeText keep cs))).bind fromUtf8 = some cs := by
  rw [encodeText, percentDecodeStrict_encodeBytes hkeep, Option.bind_some, fromUtf8_utf8Bytes]

end KDown
