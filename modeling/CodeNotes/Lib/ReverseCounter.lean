import Mathlib.Tactic
import Mathlib.Data.Nat.Bitwise

/-!
# Counting from the high bits

A counter of `w` bits that is incremented from its high bits on: the bits are reversed, the number
is incremented, and the bits are reversed again.  `position v` is the place of `v` in this order.
The words that agree with `v` in their `e` low bits are a block of consecutive positions
(`and_low_eq_iff`), and `advance e v` is the first word after the block of `v` (`position_advance`),
or zero after the last one.
-/

namespace CodeNotes.ReverseCounter

variable {w : ℕ}

/-- The mask of the `e` low bits. -/
def low (w e : ℕ) : BitVec w := BitVec.ofNat w (2 ^ e - 1)

def position (v : BitVec w) : ℕ := v.reverse.toNat

/-- Set the bits above the `e` low ones, and increment the reversed word. -/
def advance (e : ℕ) (v : BitVec w) : BitVec w := ((v ||| ~~~low w e).reverse + 1).reverse

theorem getLsbD_low (e i : ℕ) : (low w e).getLsbD i = decide (i < w ∧ i < e) := by
  rw [low, BitVec.getLsbD_ofNat, Nat.testBit_two_pow_sub_one, ← Bool.decide_and]

theorem toNat_and_low (v : BitVec w) (e : ℕ) : (v &&& low w e).toNat = v.toNat % 2 ^ e := by
  apply Nat.eq_of_testBit_eq
  intro i
  rw [BitVec.testBit_toNat, BitVec.getLsbD_and, getLsbD_low, Nat.testBit_mod_two_pow,
    BitVec.testBit_toNat]
  by_cases inside : i < w
  · by_cases low : i < e <;> simp [inside, low]
  · simp [BitVec.getLsbD_of_ge v i (by omega)]

theorem position_lt (v : BitVec w) : position v < 2 ^ w := v.reverse.isLt

theorem testBit_position (v : BitVec w) (i : ℕ) :
    (position v).testBit i = (decide (i < w) && v.getLsbD (w - 1 - i)) := by
  rw [position, BitVec.testBit_toNat, BitVec.getLsbD_reverse, BitVec.getMsbD_eq_getLsbD]

theorem position_reverse (v : BitVec w) : position v.reverse = v.toNat := by
  rw [position, BitVec.reverse_reverse_eq]

theorem position_inj {v u : BitVec w} : position v = position u ↔ v = u := by
  constructor
  · intro same
    have reversed : v.reverse = u.reverse := BitVec.eq_of_toNat_eq same
    rw [← BitVec.reverse_reverse_eq (x := v), reversed, BitVec.reverse_reverse_eq]
  · rintro rfl
    rfl

theorem position_zero : position (0 : BitVec w) = 0 := by
  apply Nat.eq_of_testBit_eq
  intro i
  rw [testBit_position]
  simp

theorem position_eq_zero_iff {v : BitVec w} : position v = 0 ↔ v = 0 := by
  rw [← position_zero (w := w), position_inj]

/-- The `e` low bits are the `e` high bits of the position. -/
theorem testBit_position_div (v : BitVec w) {e : ℕ} (small : e ≤ w) (i : ℕ) :
    (position v / 2 ^ (w - e)).testBit i = (decide (i < e) && v.getLsbD (e - 1 - i)) := by
  rw [Nat.testBit_div_two_pow, testBit_position]
  by_cases inside : i < e
  · have index : w - 1 - (i + (w - e)) = e - 1 - i := by omega
    simp [inside, index, show i + (w - e) < w by omega]
  · simp [inside, show ¬ i + (w - e) < w by omega]

theorem and_low_eq_iff (v u : BitVec w) {e : ℕ} (small : e ≤ w) :
    v &&& low w e = u &&& low w e ↔ position v / 2 ^ (w - e) = position u / 2 ^ (w - e) := by
  constructor
  · intro same
    apply Nat.eq_of_testBit_eq
    intro i
    rw [testBit_position_div v small, testBit_position_div u small]
    by_cases inside : i < e
    · have bit := congrArg (fun x => x.getLsbD (e - 1 - i)) same
      simp only [BitVec.getLsbD_and, getLsbD_low] at bit
      simpa [inside, show e - 1 - i < w by omega, show e - 1 - i < e by omega] using bit
    · simp [inside]
  · intro same
    apply BitVec.eq_of_getLsbD_eq
    intro i inside
    rw [BitVec.getLsbD_and, BitVec.getLsbD_and, getLsbD_low]
    by_cases low : i < e
    · have bit := congrArg (fun x => x.testBit (e - 1 - i)) same
      simp only [testBit_position_div _ small] at bit
      simpa [show e - 1 - i < e by omega, show e - 1 - (e - 1 - i) = i by omega, low, inside]
        using bit
    · simp [low]

/-- A block is made of the blocks of a longer mask. -/
theorem block_eq {e₀ e₁ : ℕ} (le : e₀ ≤ e₁) (small : e₁ ≤ w) :
    2 ^ (w - e₀) = 2 ^ (e₁ - e₀) * 2 ^ (w - e₁) := by
  rw [← pow_add]
  congr 1
  omega

/-- The bits between two masks are the place of a block in the larger one that it is part of. -/
theorem and_low_xor_low_eq_zero_iff (v : BitVec w) {e₀ e₁ : ℕ} (le : e₀ ≤ e₁) (small : e₁ ≤ w) :
    v &&& (low w e₀ ^^^ low w e₁) = 0 ↔ position v / 2 ^ (w - e₁) % 2 ^ (e₁ - e₀) = 0 := by
  constructor
  · intro clear
    apply Nat.eq_of_testBit_eq
    intro i
    rw [Nat.testBit_mod_two_pow, testBit_position_div v small, Nat.zero_testBit]
    by_cases inside : i < e₁ - e₀
    · have bit := congrArg (fun x => x.getLsbD (e₁ - 1 - i)) clear
      simp only [BitVec.getLsbD_and, BitVec.getLsbD_xor, getLsbD_low] at bit
      simpa [show e₁ - 1 - i < w by omega, show ¬ e₁ - 1 - i < e₀ by omega,
        show e₁ - 1 - i < e₁ by omega, inside, show i < e₁ by omega] using bit
    · simp [inside]
  · intro start
    apply BitVec.eq_of_getLsbD_eq
    intro i inside
    simp only [BitVec.getLsbD_and, BitVec.getLsbD_xor, getLsbD_low]
    by_cases between : e₀ ≤ i ∧ i < e₁
    · have bit := congrArg (fun x => x.testBit (e₁ - 1 - i)) start
      simp only [Nat.testBit_mod_two_pow, testBit_position_div v small, Nat.zero_testBit] at bit
      simpa [show e₁ - 1 - i < e₁ - e₀ by omega, show e₁ - 1 - i < e₁ by omega,
        show e₁ - 1 - (e₁ - 1 - i) = i by omega, inside, between.2, show ¬ i < e₀ by omega]
        using bit
    · have same : decide (i < w ∧ i < e₀) = decide (i < w ∧ i < e₁) := by
        rw [decide_eq_decide]
        omega
      simp [same]

/-- With the bits above the `e` low ones set, a word is the last of its block. -/
theorem position_or_not_low (v : BitVec w) {e : ℕ} (small : e ≤ w) :
    position (v ||| ~~~low w e) + 1 = (position v / 2 ^ (w - e) + 1) * 2 ^ (w - e) := by
  have block : position (v ||| ~~~low w e) =
      2 ^ (w - e) * (position v / 2 ^ (w - e)) + (2 ^ (w - e) - 1) := by
    apply Nat.eq_of_testBit_eq
    intro i
    rw [Nat.testBit_two_pow_mul_add _ (by have := Nat.two_pow_pos (w - e); omega),
      testBit_position, BitVec.getLsbD_or, BitVec.getLsbD_not, getLsbD_low,
      Nat.testBit_two_pow_sub_one]
    by_cases below : i < w - e
    · simp [below, show ¬ w - 1 - i < e by omega, show i < w by omega, show w - 1 - i < w by omega]
    · rw [if_neg below, testBit_position_div v small]
      by_cases inside : i < w
      · have index : e - 1 - (i - (w - e)) = w - 1 - i := by omega
        simp [inside, index, show w - 1 - i < e by omega, show i - (w - e) < e by omega,
          show w - 1 - i < w by omega]
      · simp [inside, show ¬ i - (w - e) < e by omega]
  have positive := Nat.two_pow_pos (w - e)
  rw [block, Nat.add_one_mul, Nat.mul_comm]
  omega

/-- `advance` goes to the first position after the block, and from the last block to zero. -/
theorem position_advance (v : BitVec w) {e : ℕ} (small : e ≤ w) :
    position (advance e v) = (position v / 2 ^ (w - e) + 1) * 2 ^ (w - e) % 2 ^ w := by
  rw [advance, position_reverse, BitVec.toNat_add, ← position_or_not_low v small]
  show (position (v ||| ~~~low w e) + 1 % 2 ^ w) % 2 ^ w = _
  rw [Nat.add_mod_mod]

/-- The block of a position is inside the range of the counter. -/
theorem block_le (v : BitVec w) {e : ℕ} (small : e ≤ w) :
    (position v / 2 ^ (w - e) + 1) * 2 ^ (w - e) ≤ 2 ^ w := by
  have split : (2 : ℕ) ^ w = 2 ^ e * 2 ^ (w - e) := by
    rw [← pow_add, Nat.add_sub_cancel' small]
  rw [split]
  apply Nat.mul_le_mul_right
  have bound := position_lt v
  rw [split] at bound
  exact Nat.div_lt_of_lt_mul (by rwa [Nat.mul_comm] at bound)

/-- **The words of a block are passed by `advance`.** -/
theorem lt_position_advance (v : BitVec w) {e : ℕ} (small : e ≤ w) :
    advance e v = 0 ∧ 2 ^ w = (position v / 2 ^ (w - e) + 1) * 2 ^ (w - e) ∨
      position (advance e v) = (position v / 2 ^ (w - e) + 1) * 2 ^ (w - e) ∧
        position v < position (advance e v) := by
  have next := position_advance v small
  have inside : position v < (position v / 2 ^ (w - e) + 1) * 2 ^ (w - e) := by
    rw [Nat.mul_comm]
    exact Nat.lt_mul_div_succ _ (Nat.two_pow_pos _)
  rcases (block_le v small).lt_or_eq with before | last
  · rw [Nat.mod_eq_of_lt before] at next
    exact Or.inr ⟨next, next ▸ inside⟩
  · rw [last, Nat.mod_self] at next
    exact Or.inl ⟨position_eq_zero_iff.1 next, last.symm⟩

end CodeNotes.ReverseCounter
