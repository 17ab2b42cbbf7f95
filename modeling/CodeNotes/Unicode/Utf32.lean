import CodeNotes.Unicode.Encode

/-!
# UTF-32

`decodeUtf32` masks the index with `0xFFFC`, so from byte `0x10000` on it reads the character at
the index modulo `0x10000` instead (`decodeUtf32_value`), and it adds the last three bytes as
signed numbers, so every byte from `0x80` on is counted `0x100` too low (`signLoss32`).
-/

namespace CodeNotes.Unicode

open Codec MachineInt

/-- What the sign extension of the third and fourth byte takes away from a scalar value. -/
def signLoss32 (n : ℕ) : ℕ :=
  (if n / 0x100 % 0x100 < 0x80 then 0 else 0x10000) + (if n % 0x100 < 0x80 then 0 else 0x100)

theorem signed_utf32 (c : Char) :
    signed (c.toNat / 0x10000 % 0x100) * 2 ^ 16 + signed (c.toNat / 0x100 % 0x100) * 2 ^ 8 +
      signed (c.toNat % 0x100) = (c.toNat : ℤ) - signLoss32 c.toNat := by
  have hc := toNat_lt c
  unfold signed signLoss32
  split_ifs <;> omega

/-! ### Any array -/

/-- Three bytes, added as the decoder adds them. -/
theorem toInt_sum32 (x y z : Int8) :
    ((0 : Int64) + x.toInt64 <<< 16 + y.toInt64 <<< 8 + z.toInt64).toInt =
      x.toInt * 2 ^ 16 + y.toInt * 2 ^ 8 + z.toInt := by
  have second : (x.toInt64 <<< 16).toInt = _ := toInt_shl_int8 x (s := 16) (by decide)
  have third : (y.toInt64 <<< 8).toInt = _ := toInt_shl_int8 y (s := 8) (by decide)
  have bx := int8_bounds x
  have by' := int8_bounds y
  have bz := int8_bounds z
  have high := toInt_add_of_fits second third (by unfold Fits; omega)
  have sum := toInt_add_of_fits high z.toInt_toInt64 (by unfold Fits; omega)
  rw [Int64.zero_add, sum]

/-- The decoder adds the last three bytes of the group at the masked index. -/
theorem decodeUtf32_eq (src : KByteArray) (i : ℕ) {x y z : Int8}
    (hx : src.bytes[i % 0x10000 / 4 * 4 + 1]? = some x)
    (hy : src.bytes[i % 0x10000 / 4 * 4 + 2]? = some y)
    (hz : src.bytes[i % 0x10000 / 4 * 4 + 3]? = some z) :
    decodeUtf32 src (Int32.ofNat i) =
      some ((0 : Int64) + x.toInt64 <<< 16 + y.toInt64 <<< 8 + z.toInt64) := by
  have align : Int32.ofNat i &&& 0xFFFC = Int32.ofNat (i % 0x10000 / 4 * 4) :=
    ofNat_and_mask i (k := 2) (w := 16) (by decide)
  have second : src.get (Int32.ofNat (i % 0x10000 / 4 * 4) + 1) = some x :=
    src.get_ofNat_add (k := 1) hx
  have third : src.get (Int32.ofNat (i % 0x10000 / 4 * 4) + 2) = some y :=
    src.get_ofNat_add (k := 2) hy
  have fourth : src.get (Int32.ofNat (i % 0x10000 / 4 * 4) + 3) = some z :=
    src.get_ofNat_add (k := 3) hz
  simp only [decodeUtf32, align, second, third, fourth]
  rfl

/-! ### Encoded texts -/

/-- Byte `k` of the character at position `m`. -/
theorem getElem?_utf32 {text : List Char} {src : KByteArray}
    (encoded : src.bytes = encode utf32Char text) {m : ℕ} {d : Char} (hd : text[m]? = some d)
    {k : ℕ} {b : Int8} (hb : (utf32Char d)[k]? = some b) : src.bytes[m * 4 + k]? = some b := by
  have hk : k < 4 := (List.getElem?_eq_some_iff.1 hb).1
  rw [encoded, getElem?_encode_of_width utf32Char utf32Char_length hd hk, hb]

/-- The decoder's result at byte `i`: the character at the masked index, less its sign loss. -/
theorem decodeUtf32_value {text : List Char} {src : KByteArray}
    (encoded : src.bytes = encode utf32Char text) (i : ℕ) {d : Char}
    (hd : text[i % 0x10000 / 4]? = some d) :
    ∃ x, decodeUtf32 src (Int32.ofNat i) = some x ∧
      x.toInt = (d.toNat : ℤ) - signLoss32 d.toNat := by
  have second := getElem?_utf32 encoded hd (k := 1) rfl
  have third := getElem?_utf32 encoded hd (k := 2) rfl
  have fourth := getElem?_utf32 encoded hd (k := 3) rfl
  refine ⟨_, decodeUtf32_eq src i second third fourth, ?_⟩
  rw [toInt_sum32, toInt_octet (by omega), toInt_octet (by omega), toInt_octet (by omega),
    signed_utf32]

/-- `decodeUtf32` returns the character at byte `i` exactly when no sign bit is lost below byte
`0x10000`, and beyond it only when the loss makes up for reading another character. -/
theorem decodeUtf32_eq_scalar_iff (text : List Char) (src : KByteArray)
    (encoded : src.bytes = encode utf32Char text) (i : ℕ) (hi : i < src.size) :
    (∃ c, text[i / 4]? = some c ∧ decodeUtf32 src (Int32.ofNat i) = some (scalar c)) ↔
      ∃ c d, text[i / 4]? = some c ∧ text[i % 0x10000 / 4]? = some d ∧
        ((i < 0x10000 ∧ c.toNat / 0x100 % 0x100 < 0x80 ∧ c.toNat % 0x100 < 0x80) ∨
          (0x10000 ≤ i ∧ d.toNat = c.toNat + signLoss32 d.toNat)) := by
  rw [KByteArray.size, encoded, length_encode_of_width utf32Char utf32Char_length] at hi
  obtain ⟨c, hc⟩ : ∃ c, text[i / 4]? = some c := ⟨_, List.getElem?_eq_getElem (by omega)⟩
  obtain ⟨d, hd⟩ : ∃ d, text[i % 0x10000 / 4]? = some d :=
    ⟨_, List.getElem?_eq_getElem (by omega)⟩
  obtain ⟨x, result, value⟩ := decodeUtf32_value encoded i hd
  have same : i < 0x10000 → d = c := fun h => by
    rw [Nat.mod_eq_of_lt h, hc] at hd
    exact (Option.some.inj hd).symm
  constructor
  · rintro ⟨c', hc', equal⟩
    rw [hc, Option.some.injEq] at hc'
    rw [result, ← hc', some_eq_scalar_iff, value] at equal
    refine ⟨c, d, hc, hd, ?_⟩
    by_cases h : i < 0x10000
    · rw [same h] at equal
      unfold signLoss32 at equal
      left
      split_ifs at equal <;> omega
    · exact Or.inr ⟨by omega, by omega⟩
  · rintro ⟨c', d', hc', hd', cases⟩
    rw [hc, Option.some.injEq] at hc'
    rw [hd, Option.some.injEq] at hd'
    subst hc' hd'
    refine ⟨c, hc, ?_⟩
    rw [result, some_eq_scalar_iff, value]
    rcases cases with ⟨h, third, fourth⟩ | ⟨-, equal⟩
    · rw [same h, signLoss32, if_pos third, if_pos fourth]
      omega
    · omega

theorem decodeUtf32_eq_scalar_A :
    ∃ c, ['é', 'A'][5 / 4]? = some c ∧
      decodeUtf32 ⟨[0, 0, 0, -23, 0, 0, 0, 65], by decide⟩ (Int32.ofNat 5) = some (scalar c) :=
  (decodeUtf32_eq_scalar_iff ['é', 'A'] ⟨[0, 0, 0, -23, 0, 0, 0, 65], by decide⟩ rfl 5
    (by decide)).2 ⟨'A', 'A', rfl, rfl, Or.inl (by decide)⟩

/-- `U+00E9` is `00 00 00 E9`, which decodes to `-23`. -/
theorem decodeUtf32_ne_scalar :
    ¬ ∀ (text : List Char) (src : KByteArray), src.bytes = encode utf32Char text →
      ∀ i < src.size, ∃ c, text[i / 4]? = some c ∧
        decodeUtf32 src (Int32.ofNat i) = some (scalar c) := by
  intro claim
  obtain ⟨c, hc, result⟩ := claim ['é'] ⟨[0, 0, 0, -23], by decide⟩ rfl 0 (by decide)
  have decoded : decodeUtf32 ⟨[0, 0, 0, -23], by decide⟩ (Int32.ofNat 0) = some (-23) := by decide
  have he : c = 'é' := (Option.some.inj hc).symm
  rw [decoded, he] at result
  exact absurd result (by decide)

end CodeNotes.Unicode
