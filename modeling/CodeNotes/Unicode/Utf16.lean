import CodeNotes.Unicode.Encode

/-!
# UTF-16

`decodeUtf16` builds the code unit from two sign-extended bytes, so its value never reaches the
surrogate block (`codeUnitValue_lt`) and every index takes the branch for one code unit
(`decodeUtf16_eq`).  As in UTF-32 the index is reduced modulo `0x10000` by its mask.
-/

namespace CodeNotes.Unicode

open Codec MachineInt

/-- The value the decoder computes for a code unit. -/
def signedUnit (unit : ℕ) : ℤ := signed (unit / 0x100) * 2 ^ 8 + signed (unit % 0x100)

/-- What the sign extension of the low byte takes away from a code unit. -/
def signLoss16 (unit : ℕ) : ℕ := if unit % 0x100 < 0x80 then 0 else 0x100

theorem signedUnit_eq {unit : ℕ} (hu : unit < 0x10000) :
    signedUnit unit = unit - (if unit < 0x8000 then 0 else 0x10000) - signLoss16 unit := by
  unfold signedUnit signed signLoss16
  split_ifs <;> omega

/-! ### Any array -/

theorem toInt_decodeTwoByteUtf16 (x y : Int8) :
    (decodeTwoByteUtf16 x y).toInt = x.toInt * 2 ^ 8 + y.toInt := by
  have high : (x.toInt64 <<< 8).toInt = _ := toInt_shl_int8 x (s := 8) (by decide)
  have bx := int8_bounds x
  have by' := int8_bounds y
  exact toInt_add_of_fits high y.toInt_toInt64 (by unfold Fits; omega)

/-- No code unit has a value in the surrogate block: the high byte is at most `127`. -/
theorem codeUnitValue_lt (x y : Int8) : x.toInt64 <<< 8 + y.toInt64 < 0xD800 := by
  have bx := int8_bounds x
  have by' := int8_bounds y
  have value : (x.toInt64 <<< 8 + y.toInt64).toInt = _ := toInt_decodeTwoByteUtf16 x y
  rw [Int64.lt_iff_toInt_lt, value]
  show _ < (0xD800 : ℤ)
  omega

/-- The decoder combines the two bytes of the code unit at the masked index. -/
theorem decodeUtf16_eq (src : KByteArray) (i : ℕ) {x y : Int8}
    (hx : src.bytes[i % 0x10000 / 2 * 2]? = some x)
    (hy : src.bytes[i % 0x10000 / 2 * 2 + 1]? = some y) :
    decodeUtf16 src (Int32.ofNat i) = some (decodeTwoByteUtf16 x y) := by
  have align : Int32.ofNat i &&& 0xFFFE = Int32.ofNat (i % 0x10000 / 2 * 2) :=
    ofNat_and_mask i (k := 1) (w := 16) (by decide)
  have high : src.get (Int32.ofNat (i % 0x10000 / 2 * 2)) = some x := by
    rw [src.get_ofNat (by omega), hx]
  have low : src.get (Int32.ofNat (i % 0x10000 / 2 * 2) + 1) = some y :=
    src.get_ofNat_add (k := 1) hy
  simp only [decodeUtf16, align, high, low, Option.bind_eq_bind, Option.bind_some]
  rw [if_pos (Or.inl (codeUnitValue_lt x y))]
  rfl

/-! ### Encoded texts -/

/-- Byte `k` of the code unit at position `m`. -/
theorem getElem?_utf16 {text : List Char} {src : KByteArray}
    (encoded : src.bytes = encode utf16Char text)
    {m unit : ℕ} (hu : (encode utf16Units text)[m]? = some unit) {k : ℕ} {b : Int8}
    (hb : (unitBytes unit)[k]? = some b) : src.bytes[m * 2 + k]? = some b := by
  have hk : k < 2 := (List.getElem?_eq_some_iff.1 hb).1
  rw [encoded, encode_utf16Char, getElem?_encode_of_width unitBytes unitBytes_length hu hk, hb]

/-- Every unit of an encoded text is a 16-bit number. -/
theorem unit_lt {text : List Char} {m unit : ℕ} (hu : (encode utf16Units text)[m]? = some unit) :
    unit < 0x10000 := by
  obtain ⟨c, -, hc⟩ := List.mem_flatMap.1 (List.mem_of_getElem? hu)
  exact utf16Units_lt hc

/-- The decoder's result at byte `i`: the code unit at the masked index, as a signed number. -/
theorem decodeUtf16_value {text : List Char} {src : KByteArray}
    (encoded : src.bytes = encode utf16Char text) (i : ℕ) {unit : ℕ}
    (hu : (encode utf16Units text)[i % 0x10000 / 2]? = some unit) :
    ∃ x, decodeUtf16 src (Int32.ofNat i) = some x ∧ x.toInt = signedUnit unit := by
  have hlt := unit_lt hu
  have high := getElem?_utf16 encoded hu (k := 0) rfl
  have low := getElem?_utf16 encoded hu (k := 1) rfl
  refine ⟨_, decodeUtf16_eq src i high low, ?_⟩
  rw [toInt_decodeTwoByteUtf16, toInt_octet (by omega), toInt_octet (by omega), signedUnit]

/-- The code unit around byte `i` belongs to the character that covers `i`. -/
theorem unit_mem_of_covering {text : List Char} {i unit : ℕ} {c : Char}
    (hi : i < (encode utf16Char text).length) (hc : covering utf16Char text i = some c)
    (hu : (encode utf16Units text)[i / 2]? = some unit) : unit ∈ utf16Units c := by
  obtain ⟨before, c', after, off, hc', -, rfl, hoff, hlt⟩ := covering_split utf16Char hi
  rw [hc, Option.some.injEq] at hc'
  subst hc'
  have length (text : List Char) :
      (encode utf16Char text).length = (encode utf16Units text).length * 2 := by
    rw [encode_utf16Char, length_encode_of_width unitBytes unitBytes_length]
  rw [utf16Char, length_encode_of_width unitBytes unitBytes_length] at hlt
  rw [length] at hoff
  rw [encode_append, encode_cons, List.getElem?_append_right (by omega),
    List.getElem?_append_left (by omega)] at hu
  exact List.mem_of_getElem? hu

/-- Only a character below `U+8000` has its scalar value as the signed value of one of its units,
and only when its low byte is below `0x80`. -/
theorem signedUnit_eq_toNat_iff {c : Char} {unit : ℕ} (hu : unit ∈ utf16Units c) :
    signedUnit unit = c.toNat ↔ c.toNat < 0x8000 ∧ c.toNat % 0x100 < 0x80 := by
  rw [signedUnit_eq (utf16Units_lt hu)]
  have hc := toNat_lt c
  unfold utf16Units at hu
  unfold signLoss16
  split_ifs at hu with small
  · rw [List.mem_singleton] at hu
    subst hu
    split_ifs <;> omega
  · simp only [List.mem_cons, List.not_mem_nil, or_false] at hu
    have high : 0xD800 ≤ unit ∧ unit < 0xE000 := by omega
    split_ifs <;> omega

/-- `decodeUtf16` returns the character that covers byte `i` exactly when, below byte `0x10000`,
that character is below `U+8000` with a low byte below `0x80`, and beyond it only when the unit at
the index modulo `0x10000` happens to have the right signed value. -/
theorem decodeUtf16_decodesAt_iff (text : List Char) (src : KByteArray)
    (encoded : src.bytes = encode utf16Char text) (i : ℕ) (hi : i < src.size) :
    DecodesAt utf16Char decodeUtf16 text src i ↔
      ∃ c unit, covering utf16Char text i = some c ∧
        (encode utf16Units text)[i % 0x10000 / 2]? = some unit ∧
        ((i < 0x10000 ∧ c.toNat < 0x8000 ∧ c.toNat % 0x100 < 0x80) ∨
          (0x10000 ≤ i ∧ unit < 0x8000 ∧ unit = c.toNat + signLoss16 unit)) := by
  rw [KByteArray.size, encoded] at hi
  obtain ⟨-, c, -, -, hc, -⟩ := covering_split utf16Char hi
  have length : i < (encode utf16Units text).length * 2 := by
    rwa [encode_utf16Char, length_encode_of_width unitBytes unitBytes_length] at hi
  obtain ⟨unit, hu⟩ : ∃ unit, (encode utf16Units text)[i % 0x10000 / 2]? = some unit :=
    ⟨_, List.getElem?_eq_getElem (by omega)⟩
  obtain ⟨x, result, value⟩ := decodeUtf16_value encoded i hu
  rw [decodesAt_iff hc result, value]
  have near : i < 0x10000 → (signedUnit unit = c.toNat ↔
      c.toNat < 0x8000 ∧ c.toNat % 0x100 < 0x80) := fun h =>
    signedUnit_eq_toNat_iff (unit_mem_of_covering hi hc (by rwa [Nat.mod_eq_of_lt h] at hu))
  have far : signedUnit unit = c.toNat ↔ unit < 0x8000 ∧ unit = c.toNat + signLoss16 unit := by
    have hlt := unit_lt hu
    rw [signedUnit_eq hlt]
    split_ifs <;> omega
  constructor
  · intro equal
    refine ⟨c, unit, hc, hu, ?_⟩
    by_cases h : i < 0x10000
    · exact Or.inl ⟨h, (near h).1 equal⟩
    · exact Or.inr ⟨by omega, far.1 equal⟩
  · rintro ⟨c', unit', hc', hu', cases⟩
    rw [hc, Option.some.injEq] at hc'
    rw [hu, Option.some.injEq] at hu'
    subst hc' hu'
    rcases cases with ⟨h, small⟩ | ⟨-, equal⟩
    · exact (near h).2 small
    · exact far.2 equal

theorem decodeUtf16_decodesAt_A :
    DecodesAt utf16Char decodeUtf16 ['é', 'A', '中'] ⟨[0, -23, 0, 65, 78, 45], by decide⟩ 3 :=
  (decodeUtf16_decodesAt_iff ['é', 'A', '中'] ⟨[0, -23, 0, 65, 78, 45], by decide⟩ rfl 3
    (by decide)).2 ⟨'A', 65, rfl, rfl, Or.inl (by decide)⟩

/-- `U+1F3F3` is the pair `D83C DFF3`; byte `0` decodes to `-10180`, the first unit as a signed
number. -/
theorem decodeUtf16_not_decodesAt :
    ¬ ∀ (text : List Char) (src : KByteArray), src.bytes = encode utf16Char text →
      ∀ i < src.size, DecodesAt utf16Char decodeUtf16 text src i := by
  intro claim
  obtain ⟨c, hc, result⟩ :=
    claim [Char.ofNat 0x1F3F3] ⟨[-40, 60, -33, -13], by decide⟩ (by decide) 0 (by decide)
  have decoded : decodeUtf16 ⟨[-40, 60, -33, -13], by decide⟩ (Int32.ofNat 0) = some (-10180) := by
    decide
  have hflag : c = Char.ofNat 0x1F3F3 := (Option.some.inj hc).symm
  rw [decoded, hflag] at result
  exact absurd result (by decide)

end CodeNotes.Unicode
