import Mathlib.Data.Nat.Digits.Lemmas
import Mathlib.Tactic

/-!
# Decimal digits

`decimal n` has the decimal digits of a number in the order they are written, and `value` is what a
reader computes who takes them in one by one.  A sequence of digits that does not begin with zero is
the `decimal` of its value (`decimal_value`), so such sequences and the positive numbers correspond.
-/

namespace CodeNotes.Decimal

def decimal (n : ℕ) : List ℕ := if n = 0 then [0] else (Nat.digits 10 n).reverse

/-- The number read after the digits, if `start` was read before them. -/
def value (start : ℕ) (digits : List ℕ) : ℕ := digits.foldl (fun v digit => v * 10 + digit) start

theorem value_cons (start digit : ℕ) (digits : List ℕ) :
    value start (digit :: digits) = value (start * 10 + digit) digits := rfl

theorem value_concat (start : ℕ) (digits : List ℕ) (digit : ℕ) :
    value start (digits ++ [digit]) = value start digits * 10 + digit := by
  rw [value, List.foldl_append]
  rfl

theorem decimal_of_lt {n : ℕ} (small : n < 10) : decimal n = [n] := by
  unfold decimal
  split_ifs with zero
  · rw [zero]
  · rw [Nat.digits_of_lt 10 n zero small, List.reverse_singleton]

theorem decimal_of_le {n : ℕ} (large : 10 ≤ n) : decimal n = decimal (n / 10) ++ [n % 10] := by
  rw [decimal, decimal, if_neg (by omega), if_neg (by omega), Nat.digits_def' (by omega) (by omega),
    List.reverse_cons]

theorem lt_of_mem_decimal {n digit : ℕ} (member : digit ∈ decimal n) : digit < 10 := by
  unfold decimal at member
  split_ifs at member
  · simp_all
  · exact Nat.digits_lt_base (by omega) (List.mem_reverse.1 member)

theorem length_decimal (n : ℕ) : (decimal n).length = Nat.log 10 n + 1 := by
  unfold decimal
  split_ifs with zero
  · rw [zero, Nat.log_zero_right]
    rfl
  · rw [List.length_reverse, Nat.length_digits 10 n (by omega) zero]

/-- The digits of a positive number begin with one that is not zero. -/
theorem exists_decimal_eq_cons {n : ℕ} (positive : n ≠ 0) :
    ∃ digit digits, decimal n = digit :: digits ∧ digit ≠ 0 := by
  induction n using Nat.strong_induction_on with
  | _ n ih =>
    by_cases small : n < 10
    · exact ⟨n, [], decimal_of_lt small, positive⟩
    · obtain ⟨digit, digits, eq, nonzero⟩ := ih (n / 10) (by omega) (by omega)
      refine ⟨digit, digits ++ [n % 10], ?_, nonzero⟩
      rw [decimal_of_le (not_lt.1 small), eq, List.cons_append]

theorem value_decimal (n : ℕ) : value 0 (decimal n) = n := by
  induction n using Nat.strong_induction_on with
  | _ n ih =>
    by_cases small : n < 10
    · rw [decimal_of_lt small, value_cons, Nat.zero_mul, Nat.zero_add]
      rfl
    · rw [decimal_of_le (not_lt.1 small), value_concat, ih (n / 10) (by omega)]
      omega

theorem le_value (start : ℕ) (digits : List ℕ) : start ≤ value start digits := by
  induction digits generalizing start with
  | nil => exact le_rfl
  | cons digit digits ih =>
    rw [value_cons]
    exact le_trans (by omega) (ih _)

theorem decimal_value {digit : ℕ} {digits : List ℕ} (nonzero : digit ≠ 0) (small : digit < 10)
    (smalls : ∀ d ∈ digits, d < 10) : decimal (value digit digits) = digit :: digits := by
  induction digits using List.reverseRecOn with
  | nil => exact decimal_of_lt small
  | append_singleton digits last ih =>
    rw [List.forall_mem_append, List.forall_mem_singleton] at smalls
    have before := le_value digit digits
    rw [value_concat, decimal_of_le (by omega),
      show (value digit digits * 10 + last) % 10 = last by omega,
      show (value digit digits * 10 + last) / 10 = value digit digits by omega, ih smalls.1,
      List.cons_append]

end CodeNotes.Decimal
