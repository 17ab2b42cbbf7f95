import Mathlib.Tactic

/-!
# Signed bytes, machine words and aligned indices

An octet held as a two's-complement byte and widened by sign extension: the value it gets
(`signed`), the low bits a mask keeps (`toInt_and_mask`), the high bits a shift keeps
(`toInt_shr_octet`), and shifts and sums that stay within the range of a 64-bit word (`toInt_shl`,
`toInt_add_of_fits`).  An index masked with `2 ^ w - 2 ^ k`
is reduced modulo `2 ^ w` and then rounded down to a multiple of `2 ^ k` (`ofNat_and_mask`).
-/

namespace CodeNotes.MachineInt

/-- The value of an octet read as a two's-complement byte. -/
def signed (n : ℕ) : ℤ := if n < 128 then n else n - 256

/-- A statement about all octets is checked octet by octet. -/
theorem forall_octet {p : UInt8 → Prop} (h : ∀ n : Fin 256, p (UInt8.ofNat n)) (u : UInt8) :
    p u := by
  have hu := h ⟨u.toNat, u.toNat_lt⟩
  rwa [UInt8.ofNat_toNat] at hu

theorem toInt_toInt8 (u : UInt8) : u.toInt8.toInt = signed u.toNat :=
  forall_octet (p := fun u => u.toInt8.toInt = signed u.toNat) (by decide +kernel) u

/-- Masking a sign-extended octet with `2 ^ k - 1` keeps its `k` low bits. -/
theorem toInt_and_mask (u : UInt8) (k : Fin 8) :
    (u.toInt8.toInt64 &&& Int64.ofNat (2 ^ k.val - 1)).toInt = (u.toNat % 2 ^ k.val : ℕ) :=
  forall_octet (p := fun u => ∀ k : Fin 8,
    (u.toInt8.toInt64 &&& Int64.ofNat (2 ^ k.val - 1)).toInt = (u.toNat % 2 ^ k.val : ℕ))
    (by decide +kernel) u k

/-- The same mask on the byte itself. -/
theorem toInt_and_mask8 (u : UInt8) (k : Fin 8) :
    (u.toInt8 &&& Int8.ofNat (2 ^ k.val - 1)).toInt = (u.toNat % 2 ^ k.val : ℕ) :=
  forall_octet (p := fun u => ∀ k : Fin 8,
    (u.toInt8 &&& Int8.ofNat (2 ^ k.val - 1)).toInt = (u.toNat % 2 ^ k.val : ℕ))
    (by decide +kernel) u k

/-- The arithmetic shift of a sign-extended octet to the right divides, rounding down. -/
theorem toInt_shr_octet (u : UInt8) (k : Fin 8) :
    (u.toInt8.toInt64 >>> Int64.ofNat k.val).toInt = signed u.toNat / 2 ^ k.val :=
  forall_octet (p := fun u => ∀ k : Fin 8,
    (u.toInt8.toInt64 >>> Int64.ofNat k.val).toInt = signed u.toNat / 2 ^ k.val)
    (by decide +kernel) u k

/-! ### Sums and shifts that do not overflow -/

/-- Well inside the range of a 64-bit word, so that a sum of a few such values is exact. -/
def Fits (z : ℤ) : Prop := -2 ^ 40 ≤ z ∧ z ≤ 2 ^ 40

theorem bmod_of_fits {z : ℤ} (fits : Fits z) : z.bmod (2 ^ 64) = z := by
  obtain ⟨lower, upper⟩ := fits
  apply Int.bmod_eq_of_le_mul_two <;> omega

theorem toInt_add_of_fits {x y : Int64} {a b : ℤ} (hx : x.toInt = a) (hy : y.toInt = b)
    (fits : Fits (a + b)) : (x + y).toInt = a + b := by
  rw [Int64.toInt_add, hx, hy, bmod_of_fits fits]

theorem fits_mul_pow {z : ℤ} (hz : -2 ^ 16 ≤ z ∧ z ≤ 2 ^ 16) {s : ℕ} (hs : s ≤ 24) :
    Fits (z * 2 ^ s) := by
  have positive : (0 : ℤ) < 2 ^ s := by positivity
  have bound : (2 : ℤ) ^ s ≤ 2 ^ 24 := by
    gcongr
    norm_num
  obtain ⟨lower, upper⟩ := hz
  constructor <;> nlinarith

/-- A shift by at most 24 bits multiplies. -/
theorem toInt_shl (x : Int64) {s : ℕ} (hs : s ≤ 24) (hx : -2 ^ 16 ≤ x.toInt ∧ x.toInt ≤ 2 ^ 16) :
    (x <<< Int64.ofNat s).toInt = x.toInt * 2 ^ s := by
  have counts : ∀ s : Fin 25,
      (Int64.ofNat s.val).toBitVec.smod 64 = BitVec.ofNat 64 s.val := by decide +kernel
  have count := counts ⟨s, by omega⟩
  dsimp only at count
  have shift : (x <<< Int64.ofNat s).toBitVec = x.toBitVec <<< s := by
    rw [Int64.toBitVec_shiftLeft, count, BitVec.shiftLeft_eq', BitVec.toNat_ofNat,
      Nat.mod_eq_of_lt (by omega)]
  have wrap : ((x.toBitVec.toNat * 2 ^ s : ℕ) : ℤ).bmod (2 ^ 64) =
      (x.toInt * 2 ^ s).bmod (2 ^ 64) := by
    rw [← Int64.toInt_toBitVec, Nat.cast_mul, BitVec.toInt_eq_toNat_bmod, Int.bmod_mul_bmod]
    push_cast
    rfl
  rw [← Int64.toInt_toBitVec, shift, BitVec.toInt_shiftLeft, Nat.shiftLeft_eq, wrap,
    bmod_of_fits (fits_mul_pow hx hs)]

theorem int8_bounds (x : Int8) : -2 ^ 7 ≤ x.toInt ∧ x.toInt < 2 ^ 7 := ⟨x.le_toInt, x.toInt_lt⟩

/-- A sign-extended byte, shifted. -/
theorem toInt_shl_int8 (x : Int8) {s : ℕ} (hs : s ≤ 24) :
    (x.toInt64 <<< Int64.ofNat s).toInt = x.toInt * 2 ^ s := by
  have bounds := int8_bounds x
  rw [toInt_shl _ hs (by rw [Int8.toInt_toInt64]; omega), Int8.toInt_toInt64]

/-- The low bits of an octet, shifted. -/
theorem toInt_shl_mask (u : UInt8) (k : Fin 8) {s : ℕ} (hs : s ≤ 24) :
    ((u.toInt8.toInt64 &&& Int64.ofNat (2 ^ k.val - 1)) <<< Int64.ofNat s).toInt =
      (u.toNat % 2 ^ k.val : ℕ) * 2 ^ s := by
  have hu := u.toNat_lt
  have small := Nat.mod_le u.toNat (2 ^ k.val)
  rw [toInt_shl _ hs (by rw [toInt_and_mask]; omega), toInt_and_mask]

/-! ### Aligned indices -/

theorem land_mask (i : ℕ) {k w : ℕ} (hk : k ≤ w) :
    i &&& (2 ^ w - 2 ^ k) = i % 2 ^ w / 2 ^ k * 2 ^ k := by
  have mask : 2 ^ w - 2 ^ k = (2 ^ (w - k) - 1) * 2 ^ k := by
    rw [Nat.sub_mul, ← pow_add, Nat.sub_add_cancel hk, Nat.one_mul]
  rw [mask, ← Nat.shiftRight_eq_div_pow, ← Nat.shiftLeft_eq, ← Nat.shiftLeft_eq]
  apply Nat.eq_of_testBit_eq
  intro j
  simp only [Nat.testBit_and, Nat.testBit_shiftLeft, Nat.testBit_two_pow_sub_one,
    Nat.testBit_shiftRight, Nat.testBit_mod_two_pow]
  by_cases hj : k ≤ j
  · have shift : k + (j - k) = j := by omega
    have range : j - k < w - k ↔ j < w := by omega
    simp [hj, shift, range, Bool.and_comm]
  · simp [hj]

/-- Masking a 32-bit index. -/
theorem ofNat_and_mask (i : ℕ) {k w : ℕ} (hk : k ≤ w) :
    Int32.ofNat i &&& Int32.ofNat (2 ^ w - 2 ^ k) = Int32.ofNat (i % 2 ^ w / 2 ^ k * 2 ^ k) := by
  rw [← land_mask i hk, ← Int32.toBitVec_inj]
  exact (BitVec.ofNat_and ..).symm

end CodeNotes.MachineInt
