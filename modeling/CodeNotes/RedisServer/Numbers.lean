import CodeNotes.Lib.Decimal
import CodeNotes.Redis.Store

/-!
# Numbers as text

The conversions of `util.c` between integers of 64 bits and their decimal text, which the protocol
and the append only file write lengths with.  `ull2string` fills a buffer from its end, two digits
at a time out of a table, and relies on `digits10` for where the end is; a write outside the buffer
is `none`.  The two directions are inverse to each other: `string2ll` accepts a text exactly if
`ll2string` writes it (`string2ll_eq_some_iff`).
-/

namespace CodeNotes.RedisServer

open Redis Decimal

def ULLONG_MAX : ℕ := 2 ^ 64 - 1
def LLONG_MAX : ℕ := 2 ^ 63 - 1
def LONG_STR_SIZE : ℕ := 21

/-- The ASCII digit. -/
def digitByte (digit : ℕ) : UInt8 := UInt8.ofNat (48 + digit)

def digits10 (v : ℕ) : ℕ :=
  if v < 10 then 1
  else if v < 100 then 2
  else if v < 1000 then 3
  else if v < 1000000000000 then
    if v < 100000000 then
      if v < 1000000 then
        if v < 10000 then 4 else 5 + if v ≥ 100000 then 1 else 0
      else 7 + if v ≥ 10000000 then 1 else 0
    else if v < 10000000000 then 9 + if v ≥ 1000000000 then 1 else 0
    else 11 + if v ≥ 100000000000 then 1 else 0
  else 12 + digits10 (v / 1000000000000)

/-- The table of the pairs of digits. -/
def digitPairs : Bytes :=
  literal "0001020304050607080910111213141516171819" ++
  literal "2021222324252627282930313233343536373839" ++
  literal "4041424344454647484950515253545556575859" ++
  literal "6061626364656667686970717273747576777879" ++
  literal "8081828384858687888990919293949596979899"

/-- `dst[i] = b`. -/
def put (dst : Bytes) (i : ℕ) (b : UInt8) : Option Bytes :=
  if i < dst.length then some (dst.set i b) else none

/-- Write the pair of digits of `n` so that the second one is at `next`, an index of 32 bits. -/
def putPair (dst : Bytes) (next n : ℕ) : Option Bytes :=
  (digitPairs[n * 2 + 1]?).bind fun second =>
    (digitPairs[n * 2]?).bind fun first =>
      (put dst next second).bind fun dst => put dst ((next + 2 ^ 32 - 1) % 2 ^ 32) first

/-- The loop of `ull2string`, and the one or two digits after it. -/
def ull2stringLoop (value next : ℕ) (dst : Bytes) : Option Bytes :=
  if value ≥ 100 then
    (putPair dst next (value % 100)).bind fun dst =>
      ull2stringLoop (value / 100) ((next + 2 ^ 32 - 2) % 2 ^ 32) dst
  else if value < 10 then put dst next (digitByte value)
  else putPair dst next value

/-- The value returned and the buffer, which is as long as `dstlen` says. -/
def ull2string (dst : Bytes) (value : ℕ) : Option (ℕ × Bytes) :=
  let length := digits10 value
  if length ≥ dst.length then
    if dst.length > 0 then (put dst 0 0).map fun dst => (0, dst) else some (0, dst)
  else
    (put dst length 0).bind fun dst =>
      (ull2stringLoop value (length - 1) dst).map fun dst => (length, dst)

def ll2string (dst : Bytes) (svalue : ℤ) : Option (ℕ × Bytes) :=
  if svalue < 0 then
    match dst with
    | [] => some (0, [])
    | [_] => some (0, [0])
    | _ :: rest =>
      (ull2string rest svalue.natAbs).map fun (length, rest) =>
        (if length = 0 then 0 else length + 1, 45 :: rest)
  else ull2string dst svalue.natAbs

/-- The loop over the digits after the first one, which stops at another character. -/
def string2llLoop (v : ℕ) : Bytes → Option ℕ
  | [] => some v
  | c :: p =>
    if 48 ≤ c ∧ c ≤ 57 then
      if v > ULLONG_MAX / 10 then none
      else if v * 10 > ULLONG_MAX - (c.toNat - 48) then none
      else string2llLoop (v * 10 + (c.toNat - 48)) p
    else none

/-- The digits after the sign, of which the first is from 1 to 9. -/
def string2llUnsigned (negative : Bool) : Bytes → Option ℤ
  | [] => none
  | c :: p =>
    if 49 ≤ c ∧ c ≤ 57 then
      (string2llLoop (c.toNat - 48) p).bind fun v =>
        if negative then if v > LLONG_MAX + 1 then none else some (-v)
        else if v > LLONG_MAX then none
        else some v
    else none

def string2ll (s : Bytes) : Option ℤ :=
  if s.length = 0 ∨ s.length ≥ LONG_STR_SIZE then none
  else if s = [48] then some 0
  else if s.head? = some 45 then string2llUnsigned true s.tail
  else string2llUnsigned false s

/-! ### Writing -/

theorem log_add_one {v k : ℕ} (lower : 10 ^ k ≤ v) (upper : v < 10 ^ (k + 1)) :
    k + 1 = Nat.log 10 v + 1 := by
  rw [Nat.log_eq_of_pow_le_of_lt_pow lower upper]

theorem digits10_eq (v : ℕ) : digits10 v = Nat.log 10 v + 1 := by
  induction v using Nat.strong_induction_on with
  | _ v ih =>
    rw [digits10]
    split_ifs
    · rw [Nat.log_of_lt (by omega)]
    · exact log_add_one (k := 1) (by omega) (by omega)
    · exact log_add_one (k := 2) (by omega) (by omega)
    · exact log_add_one (k := 3) (by omega) (by omega)
    · exact log_add_one (k := 5) (by omega) (by omega)
    · exact log_add_one (k := 4) (by omega) (by omega)
    · exact log_add_one (k := 7) (by omega) (by omega)
    · exact log_add_one (k := 6) (by omega) (by omega)
    · exact log_add_one (k := 9) (by omega) (by omega)
    · exact log_add_one (k := 8) (by omega) (by omega)
    · exact log_add_one (k := 11) (by omega) (by omega)
    · exact log_add_one (k := 10) (by omega) (by omega)
    · have positive : v / 1000000000000 ≠ 0 := by omega
      have lower := Nat.pow_log_le_self 10 positive
      have upper := Nat.lt_pow_succ_log_self (show 1 < 10 by omega) (v / 1000000000000)
      rw [ih _ (by omega)]
      have digits := log_add_one (v := v) (k := Nat.log 10 (v / 1000000000000) + 12)
        (by rw [pow_add]; omega) (by rw [Nat.add_right_comm, pow_add]; omega)
      omega

def decimalText (n : ℕ) : Bytes := (decimal n).map digitByte

theorem length_decimalText (n : ℕ) : (decimalText n).length = digits10 n := by
  rw [decimalText, List.length_map, length_decimal, digits10_eq]

theorem put_of_lt {dst : Bytes} {i : ℕ} (inside : i < dst.length) (b : UInt8) :
    put dst i b = some (dst.set i b) := if_pos inside

theorem digitPairs_eq : digitPairs =
    (List.range 100).flatMap fun n => [digitByte (n / 10), digitByte (n % 10)] := by
  decide +kernel

theorem digitPairs_get {n : ℕ} (small : n < 100) :
    digitPairs[n * 2]? = some (digitByte (n / 10)) ∧
      digitPairs[n * 2 + 1]? = some (digitByte (n % 10)) := by
  rw [digitPairs_eq]
  revert n
  decide +kernel

/-- The two digits are written in front of what is there after them. -/
theorem putPair_spec {dst : Bytes} {next n : ℕ} (small : n < 100) (inside : next + 1 < dst.length)
    (word : next + 1 < 2 ^ 32) :
    ∃ dst', putPair dst (next + 1) n = some dst' ∧ dst'.length = dst.length ∧
      dst'.drop next = digitByte (n / 10) :: digitByte (n % 10) :: dst.drop (next + 2) := by
  refine ⟨(dst.set (next + 1) (digitByte (n % 10))).set next (digitByte (n / 10)), ?_, ?_, ?_⟩
  · rw [putPair, (digitPairs_get small).2, (digitPairs_get small).1, Option.bind_some,
      Option.bind_some, put_of_lt inside, Option.bind_some,
      show (next + 1 + 2 ^ 32 - 1) % 2 ^ 32 = next by omega, put_of_lt]
    rw [List.length_set]
    omega
  · rw [List.length_set, List.length_set]
  · rw [List.drop_eq_getElem_cons (by simp; omega), List.drop_eq_getElem_cons (by simp; omega),
      List.drop_set_of_lt (by omega), List.drop_set_of_lt (by omega)]
    simp

theorem decimalText_of_lt {n : ℕ} (small : n < 10) : decimalText n = [digitByte n] := by
  rw [decimalText, decimal_of_lt small, List.map_singleton]

theorem decimalText_of_le {n : ℕ} (large : 10 ≤ n) :
    decimalText n = decimalText (n / 10) ++ [digitByte (n % 10)] := by
  rw [decimalText, decimal_of_le large, List.map_append, List.map_singleton, decimalText]

theorem ull2stringLoop_spec (value : ℕ) : ∀ {next : ℕ} {dst : Bytes},
    next + 1 = (decimalText value).length → next < dst.length → next < 2 ^ 32 →
      ull2stringLoop value next dst = some (decimalText value ++ dst.drop (next + 1)) := by
  induction value using Nat.strong_induction_on with
  | _ value ih =>
    intro next dst ends inside word
    rw [ull2stringLoop]
    split_ifs with large small
    · have text : decimalText value = decimalText (value / 100) ++
          [digitByte (value % 100 / 10), digitByte (value % 100 % 10)] := by
        rw [decimalText_of_le (by omega), decimalText_of_le (by omega), List.append_assoc,
          Nat.div_div_eq_div_mul, show value / 10 % 10 = value % 100 / 10 by omega,
          show value % 10 = value % 100 % 10 by omega]
        rfl
      rw [text, List.length_append] at ends
      have before : 0 < (decimalText (value / 100)).length := by
        rw [length_decimalText, digits10_eq]
        omega
      obtain ⟨next, rfl⟩ : ∃ k, next = k + 2 := ⟨next - 2, by simp at ends; omega⟩
      obtain ⟨dst', written, length, rest⟩ :=
        putPair_spec (Nat.mod_lt value (by omega : 100 > 0)) inside word
      rw [written, Option.bind_some, show (next + 2 + 2 ^ 32 - 2) % 2 ^ 32 = next by omega,
        ih (value / 100) (by omega) (by simp at ends; omega) (by omega) (by omega), rest, text,
        List.append_assoc]
      rfl
    · rw [decimalText_of_lt small] at ends ⊢
      obtain rfl : next = 0 := by simpa using ends
      rw [put_of_lt inside]
      cases dst with
      | nil => simp at inside
      | cons b dst => rfl
    · have text : decimalText value = [digitByte (value / 10), digitByte (value % 10)] := by
        rw [decimalText_of_le (by omega), decimalText_of_lt (by omega)]
        rfl
      rw [text] at ends ⊢
      obtain rfl : next = 1 := by simpa using ends
      have pair := putPair_spec (not_le.1 large) (show 0 + 1 < dst.length from inside) word
      obtain ⟨dst', written, length, rest⟩ := pair
      rw [written, ← List.drop_zero (l := dst'), rest]
      rfl

theorem digits10_le {value : ℕ} (small : value < 2 ^ 64) : digits10 value ≤ 20 := by
  have bound := Nat.log_lt_of_lt_pow' (b := 10) (x := 20) (y := value) (by omega) (by omega)
  rw [digits10_eq]
  omega

theorem ull2string_spec {dst : Bytes} {value : ℕ} (small : value < 2 ^ 64)
    (room : (decimalText value).length < dst.length) :
    ull2string dst value = some ((decimalText value).length,
      decimalText value ++ 0 :: dst.drop ((decimalText value).length + 1)) := by
  have bound := digits10_le small
  have positive : 0 < digits10 value := by
    rw [digits10_eq]
    omega
  rw [length_decimalText] at room ⊢
  rw [ull2string, if_neg (not_le.2 room), put_of_lt room, Option.bind_some,
    ull2stringLoop_spec value (by rw [length_decimalText]; omega)
      (by rw [List.length_set]; omega) (by omega),
    Option.map_some, Nat.sub_add_cancel positive, List.drop_eq_getElem_cons (by simp; omega),
    List.drop_set_of_lt (Nat.lt_succ_self _)]
  simp

/-- The text of an integer. -/
def integerText (v : ℤ) : Bytes :=
  if v < 0 then 45 :: decimalText v.natAbs else decimalText v.natAbs

theorem length_integerText_lt {v : ℤ} (lower : -2 ^ 63 ≤ v) (upper : v < 2 ^ 63) :
    (integerText v).length < LONG_STR_SIZE := by
  have bound : Nat.log 10 v.natAbs < 19 := Nat.log_lt_of_lt_pow' (by omega) (by omega)
  have length : (decimalText v.natAbs).length ≤ 19 := by
    rw [length_decimalText, digits10_eq]
    omega
  rw [integerText, LONG_STR_SIZE]
  split_ifs
  · rw [List.length_cons]
    omega
  · omega

/-- A buffer of `LONG_STR_SIZE` bytes has room for every number. -/
theorem ll2string_spec {dst : Bytes} {v : ℤ} (lower : -2 ^ 63 ≤ v) (upper : v < 2 ^ 63)
    (room : LONG_STR_SIZE ≤ dst.length) :
    ll2string dst v = some ((integerText v).length,
      integerText v ++ 0 :: dst.drop ((integerText v).length + 1)) := by
  have fits := (length_integerText_lt lower upper).trans_le room
  have small : v.natAbs < 2 ^ 64 := by omega
  rw [LONG_STR_SIZE] at room
  unfold ll2string
  unfold integerText at fits ⊢
  split_ifs at fits ⊢ with negative
  · match dst with
    | [] => simp at room
    | [_] => simp at room
    | _ :: c :: rest =>
      rw [List.length_cons, List.length_cons, Nat.add_lt_add_iff_right] at fits
      have positive : 0 < (decimalText v.natAbs).length := by
        rw [length_decimalText, digits10_eq]
        omega
      dsimp only
      rw [ull2string_spec small fits, Option.map_some, if_neg positive.ne']
      rfl
  · exact ull2string_spec small fits

/-! ### Reading -/

/-- `p[0] - '0'`. -/
def digitOf (c : UInt8) : ℕ := c.toNat - 48

theorem digitByte_digitOf {c : UInt8} (digit : 48 ≤ c ∧ c ≤ 57) :
    digitByte (digitOf c) = c ∧ digitOf c < 10 := by
  have lower : 48 ≤ c.toNat := UInt8.le_iff_toNat_le.1 digit.1
  have upper : c.toNat ≤ 57 := UInt8.le_iff_toNat_le.1 digit.2
  constructor
  · rw [digitByte, digitOf, Nat.add_sub_cancel' lower, UInt8.ofNat_toNat]
  · rw [digitOf]
    omega

theorem digitOf_digitByte {digit : ℕ} (small : digit < 10) :
    (48 ≤ digitByte digit ∧ digitByte digit ≤ 57) ∧ digitOf (digitByte digit) = digit := by
  have number : (digitByte digit).toNat = 48 + digit := by
    rw [digitByte, UInt8.toNat_ofNat', Nat.mod_eq_of_lt (by omega)]
  rw [UInt8.le_iff_toNat_le, UInt8.le_iff_toNat_le, digitOf, number]
  exact ⟨⟨Nat.le_add_right 48 digit, show 48 + digit ≤ 57 by omega⟩, by omega⟩

/-- The checks for an overflow fail exactly if the number does not fit. -/
theorem string2llLoop_eq_some_iff {v r : ℕ} {p : Bytes} (fits : v ≤ ULLONG_MAX) :
    string2llLoop v p = some r ↔
      r ≤ ULLONG_MAX ∧ (∀ c ∈ p, 48 ≤ c ∧ c ≤ 57) ∧ value v (p.map digitOf) = r := by
  induction p generalizing v with
  | nil =>
    rw [string2llLoop, Option.some.injEq]
    constructor
    · rintro rfl
      exact ⟨fits, by simp, rfl⟩
    · exact fun read => read.2.2
  | cons c p ih =>
    rw [string2llLoop, List.map_cons, value_cons, List.forall_mem_cons]
    have grows := le_value (v * 10 + digitOf c) (p.map digitOf)
    split_ifs with digit large overflow
    · refine iff_of_false (by simp) ?_
      rintro ⟨within, -, rfl⟩
      omega
    · refine iff_of_false (by simp) ?_
      rintro ⟨within, -, rfl⟩
      have small := (digitByte_digitOf digit).2
      have exceeds : v * 10 > ULLONG_MAX - digitOf c := overflow
      omega
    · have small := (digitByte_digitOf digit).2
      have within : ¬ v * 10 > ULLONG_MAX - digitOf c := overflow
      have room : digitOf c ≤ ULLONG_MAX := small.le.trans (by rw [ULLONG_MAX]; omega)
      exact (ih (v := v * 10 + digitOf c) (by omega)).trans (by rw [and_iff_right digit])
    · exact iff_of_false (by simp) fun read => digit read.2.1.1

/-- What the texts are that are read, apart from the sign. -/
theorem first_digit_iff {c : UInt8} {p : Bytes} {r : ℕ} :
    (49 ≤ c ∧ c ≤ 57) ∧ string2llLoop (digitOf c) p = some r ↔
      (r ≤ ULLONG_MAX ∧ r ≠ 0) ∧ c :: p = decimalText r := by
  constructor
  · rintro ⟨first, read⟩
    have lower : 49 ≤ c.toNat := UInt8.le_iff_toNat_le.1 first.1
    have digit : 48 ≤ c ∧ c ≤ 57 := ⟨UInt8.le_iff_toNat_le.2 (show 48 ≤ c.toNat by omega), first.2⟩
    have fits : digitOf c ≤ ULLONG_MAX := by
      have := (digitByte_digitOf digit).2
      rw [ULLONG_MAX]
      omega
    have nonzero : digitOf c ≠ 0 := by
      rw [digitOf]
      omega
    obtain ⟨within, digits, rfl⟩ := (string2llLoop_eq_some_iff fits).1 read
    refine ⟨⟨within, ?_⟩, ?_⟩
    · have := le_value (digitOf c) (p.map digitOf)
      omega
    · have smalls : ∀ d ∈ p.map digitOf, d < 10 := by
        intro d member
        obtain ⟨b, inside, rfl⟩ := List.mem_map.1 member
        exact (digitByte_digitOf (digits b inside)).2
      have back : p.map (digitByte ∘ digitOf) = p.map id :=
        List.map_congr_left fun b inside => (digitByte_digitOf (digits b inside)).1
      rw [decimalText, decimal_value nonzero (digitByte_digitOf digit).2 smalls, List.map_cons,
        (digitByte_digitOf digit).1, List.map_map, back, List.map_id]
  · rintro ⟨⟨within, nonzero⟩, text⟩
    obtain ⟨digit, digits, written, first⟩ := exists_decimal_eq_cons nonzero
    have smalls : ∀ d ∈ digit :: digits, d < 10 := fun d member =>
      lt_of_mem_decimal (written ▸ member)
    rw [List.forall_mem_cons] at smalls
    rw [decimalText, written, List.map_cons, List.cons.injEq] at text
    obtain ⟨rfl, rfl⟩ := text
    have head := digitOf_digitByte smalls.1
    refine ⟨⟨?_, head.1.2⟩, ?_⟩
    · have lower : 48 ≤ (digitByte digit).toNat := UInt8.le_iff_toNat_le.1 head.1.1
      have equal := head.2
      rw [digitOf] at equal
      exact UInt8.le_iff_toNat_le.2 (show 49 ≤ (digitByte digit).toNat by omega)
    · rw [head.2, string2llLoop_eq_some_iff (by rw [ULLONG_MAX]; omega)]
      refine ⟨within, ?_, ?_⟩
      · intro c member
        obtain ⟨d, inside, rfl⟩ := List.mem_map.1 member
        exact (digitOf_digitByte (smalls.2 d inside)).1
      · have back : digits.map (digitOf ∘ digitByte) = digits.map id :=
          List.map_congr_left fun d inside => (digitOf_digitByte (smalls.2 d inside)).2
        have total := value_decimal r
        rw [written, value_cons, Nat.zero_mul, Nat.zero_add] at total
        rw [List.map_map, back, List.map_id, total]

/-- A positive number's text does not begin with a sign. -/
theorem head?_decimalText_ne (n : ℕ) : (decimalText n).head? ≠ some 45 := by
  intro sign
  have member : 45 ∈ decimalText n := List.mem_of_mem_head? sign
  obtain ⟨d, inside, same⟩ := List.mem_map.1 member
  have digit := (digitOf_digitByte (lt_of_mem_decimal inside)).1
  rw [same] at digit
  exact absurd digit.1 (by decide)

theorem string2llUnsigned_eq_some {negative : Bool} {p : Bytes} {v : ℤ} :
    string2llUnsigned negative p = some v ↔
      p = decimalText v.natAbs ∧ v ≠ 0 ∧ (negative = true ↔ v < 0) ∧ -2 ^ 63 ≤ v ∧ v < 2 ^ 63 := by
  cases p with
  | nil =>
    refine iff_of_false (by simp [string2llUnsigned]) ?_
    rintro ⟨empty, -⟩
    have length := congrArg List.length empty
    rw [length_decimalText, digits10_eq, List.length_nil] at length
    omega
  | cons c p =>
    rw [string2llUnsigned]
    constructor
    · intro result
      by_cases first : 49 ≤ c ∧ c ≤ 57
      · rw [if_pos first] at result
        obtain ⟨r, looped, result⟩ := Option.bind_eq_some_iff.1 result
        obtain ⟨⟨-, nonzero⟩, text⟩ := first_digit_iff.1 ⟨first, looped⟩
        rw [LLONG_MAX] at result
        cases negative with
        | true =>
          rw [if_pos rfl] at result
          split_ifs at result
          obtain rfl := Option.some.inj result
          refine ⟨by rw [Int.natAbs_neg, Int.natAbs_natCast, text], by omega, ?_, by omega,
            by omega⟩
          exact iff_of_true rfl (by omega)
        | false =>
          rw [if_neg Bool.false_ne_true] at result
          split_ifs at result
          obtain rfl := Option.some.inj result
          refine ⟨by rw [Int.natAbs_natCast, text], by omega, ?_, by omega, by omega⟩
          exact iff_of_false Bool.false_ne_true (by omega)
      · rw [if_neg first] at result
        cases result
    · rintro ⟨text, nonzero, sign, lower, upper⟩
      have fits : v.natAbs ≤ ULLONG_MAX ∧ v.natAbs ≠ 0 := by
        rw [ULLONG_MAX]
        omega
      obtain ⟨first, looped⟩ := first_digit_iff.2 ⟨fits, text⟩
      rw [digitOf] at looped
      rw [if_pos first, looped, Option.bind_some, LLONG_MAX]
      cases negative with
      | true =>
        have below := sign.1 rfl
        rw [if_pos rfl, if_neg (by omega), show -(v.natAbs : ℤ) = v by omega]
      | false =>
        have above : ¬ v < 0 := fun below => absurd (sign.2 below) Bool.false_ne_true
        rw [if_neg Bool.false_ne_true, if_neg (by omega), show (v.natAbs : ℤ) = v by omega]

theorem string2ll_eq_some {s : Bytes} {v : ℤ} :
    string2ll s = some v ↔ (-2 ^ 63 ≤ v ∧ v < 2 ^ 63) ∧ s = integerText v := by
  constructor
  · intro read
    rw [string2ll] at read
    split_ifs at read with outside zero negative
    · obtain rfl := Option.some.inj read
      exact ⟨by omega, zero⟩
    · obtain ⟨text, nonzero, sign, bounds⟩ := string2llUnsigned_eq_some.1 read
      refine ⟨bounds, ?_⟩
      rw [integerText, if_pos (sign.1 rfl), ← text]
      exact (List.cons_head?_tail negative).symm
    · obtain ⟨text, nonzero, sign, bounds⟩ := string2llUnsigned_eq_some.1 read
      exact ⟨bounds, by rw [integerText, if_neg (by simpa using sign), text]⟩
  · rintro ⟨⟨lower, upper⟩, rfl⟩
    have short := length_integerText_lt lower upper
    have positive : 0 < (decimalText v.natAbs).length := by
      rw [length_decimalText, digits10_eq]
      omega
    by_cases zero : v = 0
    · subst zero
      rfl
    by_cases negative : v < 0
    · have read : string2llUnsigned true (decimalText v.natAbs) = some v :=
        string2llUnsigned_eq_some.2 ⟨rfl, zero, iff_of_true rfl negative, lower, upper⟩
      rw [integerText, if_pos negative] at short ⊢
      rw [string2ll, if_neg (not_or.2 ⟨by simp, not_le.2 short⟩), if_neg (by simp),
        if_pos List.head?_cons]
      exact read
    · have read : string2llUnsigned false (decimalText v.natAbs) = some v :=
        string2llUnsigned_eq_some.2
          ⟨rfl, zero, iff_of_false Bool.false_ne_true negative, lower, upper⟩
      have not_zero : decimalText v.natAbs ≠ [48] := by
        intro digit
        rw [digit] at read
        cases read
      rw [integerText, if_neg negative] at short ⊢
      rw [string2ll, if_neg (not_or.2 ⟨positive.ne', not_le.2 short⟩), if_neg not_zero,
        if_neg (head?_decimalText_ne _)]
      exact read

/-- **The text of a number and the number determine each other.** -/
theorem string2ll_eq_some_iff (dst : Bytes) (room : LONG_STR_SIZE ≤ dst.length) (s : Bytes)
    (v : ℤ) :
    string2ll s = some v ↔ (-2 ^ 63 ≤ v ∧ v < 2 ^ 63) ∧
      ll2string dst v = some (s.length, s ++ 0 :: dst.drop (s.length + 1)) := by
  rw [string2ll_eq_some]
  refine and_congr_right fun ⟨lower, upper⟩ => ?_
  rw [ll2string_spec lower upper room, Option.some.injEq, Prod.mk.injEq]
  constructor
  · rintro rfl
    exact ⟨rfl, rfl⟩
  · rintro ⟨length, bytes⟩
    exact (List.append_inj_left bytes length).symm

theorem string2ll_eq_some_iff_minimum :
    string2ll (literal "-9223372036854775808") = some (-2 ^ 63) ↔
      (-2 ^ 63 ≤ (-2 ^ 63 : ℤ) ∧ (-2 ^ 63 : ℤ) < 2 ^ 63) ∧
        ll2string (List.replicate 21 0) (-2 ^ 63) =
          some (20, literal "-9223372036854775808" ++ [0]) :=
  string2ll_eq_some_iff (List.replicate 21 0) (by decide) _ _

end CodeNotes.RedisServer
