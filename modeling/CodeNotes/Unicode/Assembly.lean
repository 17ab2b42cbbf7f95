import CodeNotes.Unicode.Utf8

/-!
# The assembly helpers

The private helpers of `decode.kt` put the bits of a character's bytes together.  Their values are
sums of shifted bit fields (`toInt_decodeThreeByteUtf8`, `toInt_decodeFourByteUtf8`,
`toInt_decodeFourByteUtf16`).  The UTF-8 helpers for two and three bytes undo the encoding; the one
for four bytes reads its third byte twice (`utf8_helpers_iff`).  The helper for surrogate pairs
keeps the sign of two bytes and shifts the third by six bits in place of eight
(`decodeFourByteUtf16_eq_scalar_iff`).
-/

namespace CodeNotes.Unicode

open Codec MachineInt

/-! ### UTF-8 -/

theorem toInt_decodeThreeByteUtf8 {a b c : ℕ} (ha : a < 0x100) (hb : b < 0x100) (hc : c < 0x100) :
    (decodeThreeByteUtf8 (octet a) (octet b) (octet c)).toInt =
      (a % 16 * 4096 + b % 64 * 64 + c % 64 : ℕ) := by
  have first : (((octet a).toInt64 &&& 0xF) <<< 12).toInt = (a % 16 * 4096 : ℕ) :=
    toInt_octet_bits ha 4 (s := 12) (by decide)
  have second : (((octet b).toInt64 &&& 0x3F) <<< 6).toInt = (b % 64 * 64 : ℕ) :=
    toInt_octet_bits hb 6 (s := 6) (by decide)
  have third : ((octet c).toInt64 &&& 0x3F).toInt = (c % 64 : ℕ) := toInt_octet_mask hc 6
  have upper := toInt_add_of_fits first second (by unfold Fits; omega)
  rw [decodeThreeByteUtf8, toInt_add_of_fits upper third (by unfold Fits; omega)]
  push_cast
  rfl

/-- The last six bits are those of the third byte. -/
theorem toInt_decodeFourByteUtf8 {a b c : ℕ} (ha : a < 0x100) (hb : b < 0x100) (hc : c < 0x100)
    (fourth : Int8) :
    (decodeFourByteUtf8 (octet a) (octet b) (octet c) fourth).toInt =
      (a % 8 * 262144 + b % 64 * 4096 + c % 64 * 64 + c % 64 : ℕ) := by
  have first : (((octet a).toInt64 &&& 0x7) <<< 18).toInt = (a % 8 * 262144 : ℕ) :=
    toInt_octet_bits ha 3 (s := 18) (by decide)
  have second : (((octet b).toInt64 &&& 0x3F) <<< 12).toInt = (b % 64 * 4096 : ℕ) :=
    toInt_octet_bits hb 6 (s := 12) (by decide)
  have third : (((octet c).toInt64 &&& 0x3F) <<< 6).toInt = (c % 64 * 64 : ℕ) :=
    toInt_octet_bits hc 6 (s := 6) (by decide)
  have again : ((octet c).toInt64 &&& 0x3F).toInt = (c % 64 : ℕ) := toInt_octet_mask hc 6
  have upper := toInt_add_of_fits first second (by unfold Fits; omega)
  have most := toInt_add_of_fits upper third (by unfold Fits; omega)
  rw [decodeFourByteUtf8, toInt_add_of_fits most again (by unfold Fits; omega)]
  push_cast
  rfl

/-- **The helpers undo the encoding of every character of two and three bytes, and of those of four
bytes whose two last groups of six bits are equal.** -/
theorem utf8_helpers_iff (c : Char) :
    (0x80 ≤ c.toNat → c.toNat ≤ 0x7FF → ∃ first second, utf8Char c = [first, second] ∧
      decodeTwoByteUtf8 first second = scalar c) ∧
    (0x800 ≤ c.toNat → c.toNat ≤ 0xFFFF →
      ∃ first second third, utf8Char c = [first, second, third] ∧
      decodeThreeByteUtf8 first second third = scalar c) ∧
    (0x10000 ≤ c.toNat → ∃ first second third fourth, utf8Char c = [first, second, third, fourth] ∧
      (decodeFourByteUtf8 first second third fourth = scalar c ↔
        c.toNat % 64 = c.toNat / 64 % 64)) := by
  have eq := utf8Char_eq c
  have bound := toNat_lt c
  refine ⟨fun lower upper => ?_, fun lower upper => ?_, fun lower => ?_⟩
  · rw [if_neg (by omega), if_pos upper] at eq
    refine ⟨_, _, eq, ?_⟩
    rw [eq_scalar_iff, toInt_decodeTwoByteUtf8 (by omega) (by omega), Nat.cast_inj]
    omega
  · rw [if_neg (by omega), if_neg (by omega), if_pos upper] at eq
    refine ⟨_, _, _, eq, ?_⟩
    rw [eq_scalar_iff, toInt_decodeThreeByteUtf8 (by omega) (by omega) (by omega), Nat.cast_inj]
    omega
  · rw [if_neg (by omega), if_neg (by omega), if_neg (by omega)] at eq
    refine ⟨_, _, _, _, eq, ?_⟩
    have groups : c.toNat = c.toNat / 262144 % 8 * 262144 + c.toNat / 4096 % 64 * 4096 +
        c.toNat / 64 % 64 * 64 + c.toNat % 64 := by omega
    have lead (n : ℕ) : (n % 8 + 0xF0) % 8 = n % 8 := by omega
    have tail (n : ℕ) : (n % 64 + 0x80) % 64 = n % 64 := by omega
    rw [eq_scalar_iff, toInt_decodeFourByteUtf8 (by omega) (by omega) (by omega), Nat.cast_inj,
      lead, tail, tail]
    omega

/-- `U+1F600` is `F0 9F 98 80`; the helper returns `U+1F618`. -/
theorem utf8_helpers_not_invert :
    ¬ ∀ c : Char,
      (0x80 ≤ c.toNat → c.toNat ≤ 0x7FF → ∃ first second, utf8Char c = [first, second] ∧
        decodeTwoByteUtf8 first second = scalar c) ∧
      (0x800 ≤ c.toNat → c.toNat ≤ 0xFFFF → ∃ first second third,
        utf8Char c = [first, second, third] ∧ decodeThreeByteUtf8 first second third = scalar c) ∧
      (0x10000 ≤ c.toNat → ∃ first second third fourth,
        utf8Char c = [first, second, third, fourth] ∧
          decodeFourByteUtf8 first second third fourth = scalar c) := by
  intro claim
  obtain ⟨-, -, four⟩ := claim '😀'
  obtain ⟨first, second, third, fourth, eq, result⟩ := four (by decide)
  have bytes : utf8Char '😀' = [-16, -97, -104, -128] := by decide
  rw [bytes] at eq
  cases eq
  exact absurd result (by decide)

/-! ### Surrogate pairs -/

/-- The sign of the second and the fourth byte stays in the sum. -/
theorem toInt_decodeFourByteUtf16 {a b c d : ℕ} (ha : a < 0x100) (hb : b < 0x100) (hc : c < 0x100)
    (hd : d < 0x100) :
    (decodeFourByteUtf16 (octet a) (octet b) (octet c) (octet d)).toInt =
      (a % 4 * 4 + signed b / 64 + 1) * 65536 + b % 64 * 1024 + c % 4 * 64 + signed d := by
  have bits : (octet a &&& 0x03).toInt = (a % 4 : ℕ) := toInt_octet_mask8 ha 2
  have frontW : ((octet a &&& 0x03).toInt64 <<< 2).toInt = (octet a &&& 0x03).toInt * 2 ^ 2 :=
    toInt_shl_int8 _ (s := 2) (by decide)
  have endW : ((octet b).toInt64 >>> 6).toInt = signed b / 2 ^ 6 := toInt_octet_shr hb 6
  have secondValue : (((octet b).toInt64 &&& 0x3F) <<< 10).toInt = (b % 64 * 1024 : ℕ) :=
    toInt_octet_bits hb 6 (s := 10) (by decide)
  have thirdValue : (((octet c).toInt64 &&& 0x03) <<< 6).toInt = (c % 4 * 64 : ℕ) :=
    toInt_octet_bits hc 2 (s := 6) (by decide)
  have fourthValue : (octet d).toInt64.toInt = signed d := by
    rw [Int8.toInt_toInt64, toInt_octet hd]
  have sign := int8_bounds (octet b)
  have sign' := int8_bounds (octet d)
  rw [toInt_octet hb] at sign
  rw [toInt_octet hd] at sign'
  rw [bits] at frontW
  have allW := toInt_add_of_fits frontW endW (by unfold Fits; omega)
  have one : (1 : Int64).toInt = 1 := rfl
  have plane := toInt_add_of_fits allW one (by unfold Fits; omega)
  have allUValue : (((octet a &&& 0x03).toInt64 <<< 2 + (octet b).toInt64 >>> 6 + 1) <<< 16).toInt =
      _ * 2 ^ 16 := toInt_shl _ (s := 16) (by decide) (by rw [plane]; omega)
  rw [plane] at allUValue
  have upper := toInt_add_of_fits allUValue secondValue (by unfold Fits; omega)
  have most := toInt_add_of_fits upper thirdValue (by unfold Fits; omega)
  rw [decodeFourByteUtf16, toInt_add_of_fits most fourthValue (by unfold Fits; omega)]
  push_cast
  rfl

/-- **The helper undoes the encoding of a surrogate pair exactly when its second and fourth byte are
below `0x80` and its third is `DC`.** -/
theorem decodeFourByteUtf16_eq_scalar_iff (c : Char) (above : 0x10000 ≤ c.toNat) :
    ∃ first second third fourth, utf16Char c = [first, second, third, fourth] ∧
      (decodeFourByteUtf16 first second third fourth = scalar c ↔
        (c.toNat - 0x10000) % 0x40000 < 0x20000 ∧ c.toNat % 0x400 < 0x80) := by
  have bound := toNat_lt c
  obtain ⟨v, hv⟩ : ∃ v, c.toNat = v + 0x10000 := ⟨c.toNat - 0x10000, by omega⟩
  have units : utf16Units c = [0xD800 + v / 0x400, 0xDC00 + v % 0x400] := by
    rw [utf16Units, if_neg (by omega), hv, Nat.add_sub_cancel]
  refine ⟨octet ((0xD800 + v / 0x400) / 0x100), octet ((0xD800 + v / 0x400) % 0x100),
    octet ((0xDC00 + v % 0x400) / 0x100), octet ((0xDC00 + v % 0x400) % 0x100), ?_, ?_⟩
  · rw [utf16Char, units]
    rfl
  · rw [eq_scalar_iff, toInt_decodeFourByteUtf16 (by omega) (by omega) (by omega) (by omega), hv,
      Nat.add_sub_cancel]
    unfold signed
    split_ifs <;> omega

/-- `U+10441` is `D801 DC41`. -/
theorem decodeFourByteUtf16_deseret :
    ∃ first second third fourth, utf16Char '𐑁' = [first, second, third, fourth] ∧
      decodeFourByteUtf16 first second third fourth = scalar '𐑁' := by
  obtain ⟨first, second, third, fourth, eq, right⟩ :=
    decodeFourByteUtf16_eq_scalar_iff '𐑁' (by decide)
  exact ⟨first, second, third, fourth, eq, right.2 (by decide)⟩

/-- `U+1F600` is `D83D DE00`; the helper returns `U+1F480`. -/
theorem decodeFourByteUtf16_ne_scalar :
    ¬ ∀ c : Char, 0x10000 ≤ c.toNat → ∃ first second third fourth,
      utf16Char c = [first, second, third, fourth] ∧
        decodeFourByteUtf16 first second third fourth = scalar c := by
  intro claim
  obtain ⟨first, second, third, fourth, eq, result⟩ := claim '😀' (by decide)
  have bytes : utf16Char '😀' = [-40, 61, -34, 0] := by decide
  rw [bytes] at eq
  cases eq
  exact absurd result (by decide)

end CodeNotes.Unicode
