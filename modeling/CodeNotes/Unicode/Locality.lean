import CodeNotes.Unicode.Utf8
import CodeNotes.Unicode.Utf16
import CodeNotes.Unicode.Utf32

/-!
# Which bytes an outcome depends on

Two arrays that agree around an index are decoded alike there, as long as the decoder stays near
the index.  `decodeUtf8` leaves it when its search finds no byte with bit `0x40`: the start index
keeps its initial `0` (`searchLead_window`), and the first two bytes of the array are decoded
(`decodeUtf8_local_iff`).  `decodeUtf16` and `decodeUtf32` leave it from byte `0x10000` on, where
their masks drop the high bits of the index (`decode_aligned_iff`).
-/

namespace CodeNotes.Unicode

open Codec MachineInt

/-- The bytes at the positions from `first` to `last` are the same. -/
def AgreeOn (a b : KByteArray) (first last : ℕ) : Prop :=
  ∀ j, first ≤ j → j ≤ last → a.bytes[j]? = b.bytes[j]?

/-! ### The search over any array -/

theorem searchLead_congr {a b : KByteArray} {index : Int32} {offsets : List Int32}
    (agree : ∀ k ∈ offsets, a.get (index - k) = b.get (index - k)) :
    searchLead a index offsets = searchLead b index offsets := by
  induction offsets with
  | nil => rfl
  | cons k rest ih =>
    rw [searchLead, searchLead, agree k List.mem_cons_self,
      ih fun j hj => agree j (List.mem_cons_of_mem k hj)]

/-- The search ends at a byte with bit `0x40`, or at `0` after reading every offset in vain. -/
theorem searchLead_eq_some {src : KByteArray} {index p : Int32} {offsets : List Int32}
    (found : searchLead src index offsets = some p) :
    (∃ k ∈ offsets, p = index - k ∧ ∃ byte, src.get p = some byte ∧ byte &&& 0x40 ≠ 0) ∨
      (p = 0 ∧ ∀ k ∈ offsets, ∃ byte, src.get (index - k) = some byte ∧ byte &&& 0x40 = 0) := by
  induction offsets with
  | nil =>
    rw [searchLead, Option.some.injEq] at found
    exact Or.inr ⟨found.symm, by simp⟩
  | cons k rest ih =>
    rw [searchLead] at found
    obtain ⟨byte, read, next⟩ := Option.bind_eq_some_iff.1 found
    split_ifs at next with bit
    · obtain rfl : index - k = p := by simpa using next
      exact Or.inl ⟨k, List.mem_cons_self, rfl, byte, read, bit⟩
    · rcases ih (by simpa using next) with ⟨j, hj, stop⟩ | ⟨zero, passed⟩
      · exact Or.inl ⟨j, List.mem_cons_of_mem k hj, stop⟩
      · refine Or.inr ⟨zero, ?_⟩
        intro j hj
        rcases List.mem_cons.1 hj with rfl | hj
        · exact ⟨byte, read, by simpa using bit⟩
        · exact passed j hj

/-- The search fails only where it reads outside the array. -/
theorem searchLead_eq_none {src : KByteArray} {index : Int32} {offsets : List Int32}
    (failed : searchLead src index offsets = none) : ∃ k ∈ offsets, src.get (index - k) = none := by
  induction offsets with
  | nil => cases failed
  | cons k rest ih =>
    rw [searchLead] at failed
    cases read : src.get (index - k) with
    | none => exact ⟨k, List.mem_cons_self, read⟩
    | some byte =>
      rw [read] at failed
      by_cases bit : byte &&& 0x40 = 0
      · obtain ⟨j, hj, outside⟩ := ih (by simpa [bit] using failed)
        exact ⟨j, List.mem_cons_of_mem k hj, outside⟩
      · simp [bit] at failed

theorem mem_offsets_iff {k : Int32} :
    k ∈ [(0 : Int32), 1, 2, 3] ↔ ∃ n ≤ 3, k = Int32.ofNat n := by
  constructor
  · intro hk
    simp only [List.mem_cons, List.not_mem_nil, or_false] at hk
    rcases hk with rfl | rfl | rfl | rfl
    exacts [⟨0, by omega, rfl⟩, ⟨1, by omega, rfl⟩, ⟨2, by omega, rfl⟩, ⟨3, by omega, rfl⟩]
  · rintro ⟨n, hn, rfl⟩
    interval_cases n <;> decide

/-- Reading up to three positions back. -/
theorem KByteArray.get_back (src : KByteArray) {i n : ℕ} (hi : i < 2 ^ 31) (hn : n ≤ 3) :
    src.get (Int32.ofNat i - Int32.ofNat n) = if n ≤ i then src.bytes[i - n]? else none := by
  split_ifs with h
  · rw [← Int32.ofNat_sub _ _ h, src.get_ofNat (by omega)]
  · have negative : Int32.ofNat i - Int32.ofNat n < 0 := by
      have hi3 : i < 3 := by omega
      interval_cases i <;> interval_cases n <;> decide
    rw [KByteArray.get, if_pos negative]

/-- One of the four bytes that end at `i` has bit `0x40`. -/
def LeadNear (src : KByteArray) (i : ℕ) : Prop :=
  ∃ n ≤ 3, n ≤ i ∧ ∃ b, src.bytes[i - n]? = some b ∧ b &&& 0x40 ≠ 0

/-- The search stops near `i`, falls back on `0`, or runs off the front of the array. -/
theorem searchLead_window (src : KByteArray) {i : ℕ} (hi : i < src.size) :
    (∃ n ≤ 3, n ≤ i ∧ LeadNear src i ∧
      searchLead src (Int32.ofNat i) [0, 1, 2, 3] = some (Int32.ofNat (i - n))) ∨
    (3 ≤ i ∧ ¬ LeadNear src i ∧ searchLead src (Int32.ofNat i) [0, 1, 2, 3] = some 0) ∨
    (i < 3 ∧ searchLead src (Int32.ofNat i) [0, 1, 2, 3] = none) := by
  have bound : i < 2 ^ 31 := hi.trans src.size_lt
  cases search : searchLead src (Int32.ofNat i) [0, 1, 2, 3] with
  | some p =>
    rcases searchLead_eq_some search with ⟨k, hk, rfl, b, read, bit⟩ | ⟨rfl, passed⟩
    · obtain ⟨n, hn, rfl⟩ := mem_offsets_iff.1 hk
      rw [src.get_back bound hn] at read
      split_ifs at read with h
      exact Or.inl ⟨n, hn, h, ⟨n, hn, h, b, read, bit⟩, by rw [Int32.ofNat_sub _ _ h]⟩
    · have all {n : ℕ} (hn : n ≤ 3) : n ≤ i ∧ ∃ b, src.bytes[i - n]? = some b ∧ b &&& 0x40 = 0 := by
        obtain ⟨b, read, bit⟩ := passed _ (mem_offsets_iff.2 ⟨n, hn, rfl⟩)
        rw [src.get_back bound hn] at read
        split_ifs at read with h
        exact ⟨h, b, read, bit⟩
      refine Or.inr (Or.inl ⟨(all le_rfl).1, ?_, rfl⟩)
      rintro ⟨n, hn, -, b, read, bit⟩
      obtain ⟨-, b', read', zero⟩ := all hn
      rw [read, Option.some.injEq] at read'
      exact bit (read' ▸ zero)
  | none =>
    obtain ⟨k, hk, outside⟩ := searchLead_eq_none search
    obtain ⟨n, hn, rfl⟩ := mem_offsets_iff.1 hk
    rw [src.get_back bound hn] at outside
    refine Or.inr (Or.inr ⟨?_, rfl⟩)
    split_ifs at outside with h
    · have beyond := List.getElem?_eq_none_iff.1 outside
      unfold KByteArray.size at hi
      omega
    · omega

theorem KByteArray.exists_byte (src : KByteArray) {j : ℕ} (hj : j < src.size) :
    ∃ x, src.bytes[j]? = some x :=
  ⟨_, List.getElem?_eq_getElem hj⟩

/-! ### UTF-8 -/

theorem twoBytesAt_congr {a b : KByteArray} (size : a.size = b.size) {p : ℕ} (hp : p < a.size)
    (agree : AgreeOn a b p (p + 1)) :
    twoBytesAt a (Int32.ofNat p) = twoBytesAt b (Int32.ofNat p) := by
  rw [twoBytesAt_ofNat a hp, twoBytesAt_ofNat b (size ▸ hp), agree p le_rfl (by omega),
    agree (p + 1) (by omega) le_rfl]

/-- Two bytes are combined without loss of the bits that are read. -/
theorem decodeTwoByteUtf8_inj (first second first' second' : Int8) :
    decodeTwoByteUtf8 first second = decodeTwoByteUtf8 first' second' ↔
      first &&& 0x1F = first' &&& 0x1F ∧ second &&& 0x3F = second' &&& 0x3F := by
  have low5 (x : Int8) : (x &&& 0x1F).toInt = (x.toUInt8.toNat % 32 : ℕ) :=
    toInt_and_mask8 x.toUInt8 5
  have low6 (x : Int8) : (x &&& 0x3F).toInt = (x.toUInt8.toNat % 64 : ℕ) :=
    toInt_and_mask8 x.toUInt8 6
  have value (x y : Int8) : (decodeTwoByteUtf8 x y).toInt =
      (x.toUInt8.toNat % 32 * 64 + y.toUInt8.toNat % 64 : ℕ) := by
    rw [← toInt_decodeTwoByteUtf8 x.toUInt8.toNat_lt y.toUInt8.toNat_lt, octet_toNat, octet_toNat]
  rw [← Int64.toInt_inj, value, value, ← Int8.toInt_inj, ← Int8.toInt_inj, low5, low5, low6, low6]
  omega

/-- The first two bytes of the arrays agree in the bits that a two-byte character uses. -/
def SameStart (a b : KByteArray) : Prop :=
  a.bytes[0]?.map (· &&& 0x1F) = b.bytes[0]?.map (· &&& 0x1F) ∧
    a.bytes[1]?.map (· &&& 0x3F) = b.bytes[1]?.map (· &&& 0x3F)

theorem twoBytesAt_zero_iff {a b : KByteArray} (size : a.size = b.size) (long : 1 < a.size) :
    twoBytesAt a 0 = twoBytesAt b 0 ↔ SameStart a b := by
  obtain ⟨x, hx⟩ := a.exists_byte (j := 0) (by omega)
  obtain ⟨y, hy⟩ := a.exists_byte long
  obtain ⟨x', hx'⟩ := b.exists_byte (j := 0) (by omega)
  obtain ⟨y', hy'⟩ := b.exists_byte (size ▸ long)
  have start (src : KByteArray) (h : 1 < src.size) : twoBytesAt src 0 = _ :=
    twoBytesAt_ofNat src (p := 0) (by omega)
  rw [start a long, start b (size ▸ long), SameStart, Nat.zero_add, hx, hy, hx', hy']
  simpa using decodeTwoByteUtf8_inj x y x' y'

/-- Two arrays that agree on the seven bytes around `i` have the same outcome at `i` exactly when
the index is at most `3`, the byte is below `0x80`, the search finds a byte with bit `0x40`, or the
two arrays start alike. -/
theorem decodeUtf8_local_iff (a b : KByteArray) (size : a.size = b.size) (i : ℕ) (hi : i < a.size)
    (agree : AgreeOn a b (i - 3) (i + 3)) :
    decodeUtf8 a (Int32.ofNat i) = decodeUtf8 b (Int32.ofNat i) ↔
      i ≤ 3 ∨ (∃ x, a.bytes[i]? = some x ∧ 0 ≤ x) ∨ LeadNear a i ∨ SameStart a b := by
  have bound : i < 2 ^ 31 := hi.trans a.size_lt
  obtain ⟨x, hx⟩ := a.exists_byte hi
  have hx' : b.bytes[i]? = some x := by rw [← agree i (by omega) (by omega), hx]
  have search : searchLead b (Int32.ofNat i) [0, 1, 2, 3] =
      searchLead a (Int32.ofNat i) [0, 1, 2, 3] := by
    apply searchLead_congr
    intro k hk
    obtain ⟨n, hn, rfl⟩ := mem_offsets_iff.1 hk
    rw [a.get_back bound hn, b.get_back bound hn, agree (i - n) (by omega) (by omega)]
  rw [decodeUtf8_eq a hx, decodeUtf8_eq b hx', search]
  by_cases ascii : 0 ≤ x
  · simp [ascii, hx]
  rw [if_neg ascii, if_neg ascii]
  have nonAscii : ¬ ∃ x, a.bytes[i]? = some x ∧ 0 ≤ x := by simp [hx, ascii]
  rcases searchLead_window a hi with ⟨n, hn, le, near, found⟩ | ⟨le, far, found⟩ | ⟨lt, failed⟩
  · rw [found]
    refine iff_of_true ?_ (Or.inr (Or.inr (Or.inl near)))
    apply twoBytesAt_congr size (by omega)
    exact fun j lower upper => agree j (by omega) (by omega)
  · rw [found, Option.bind_some, Option.bind_some]
    -- at index 3 the fallback start is still inside the window
    by_cases h : i ≤ 3
    · refine iff_of_true ?_ (Or.inl h)
      apply twoBytesAt_congr (p := 0) size (by omega)
      exact fun j lower upper => agree j (by omega) (by omega)
    · rw [twoBytesAt_zero_iff size (by omega)]
      simp [h, nonAscii, far]
  · rw [failed]
    exact iff_of_true rfl (Or.inl (by omega))

/-- Two arrays that differ far from the second byte of `é`. -/
theorem decodeUtf8_local_e_acute :
    decodeUtf8 ⟨[65, 65, 65, 65, 65, -61, -87], by decide⟩ (Int32.ofNat 6) =
      decodeUtf8 ⟨[66, 65, 65, 65, 65, -61, -87], by decide⟩ (Int32.ofNat 6) := by
  apply (decodeUtf8_local_iff _ _ rfl 6 (by decide) ?_).2
  · exact Or.inr (Or.inr (Or.inl ⟨1, by decide, by decide, -61, rfl, by decide⟩))
  · intro j lower upper
    obtain ⟨k, rfl⟩ : ∃ k, j = k + 1 := ⟨j - 1, by omega⟩
    rfl

/-- A run of continuation bytes: at its end the decoder combines the first two bytes of the
array. -/
theorem decodeUtf8_not_local :
    ¬ ∀ (a b : KByteArray), a.size = b.size → ∀ i < a.size, AgreeOn a b (i - 3) (i + 3) →
      decodeUtf8 a (Int32.ofNat i) = decodeUtf8 b (Int32.ofNat i) := by
  intro claim
  have same := claim ⟨[65, -128, -128, -128, -128], by decide⟩
    ⟨[66, -128, -128, -128, -128], by decide⟩ rfl 4 (by decide) (fun j lower upper => by
      obtain ⟨k, rfl⟩ : ∃ k, j = k + 1 := ⟨j - 1, by omega⟩
      rfl)
  exact absurd same (by decide)

/-! ### UTF-32 and UTF-16 -/

/-- Three bytes are added without loss: their sum has one balanced base-`256` expansion. -/
theorem sum32_inj {x y z x' y' z' : Int8} :
    (0 : Int64) + x.toInt64 <<< 16 + y.toInt64 <<< 8 + z.toInt64 =
        (0 : Int64) + x'.toInt64 <<< 16 + y'.toInt64 <<< 8 + z'.toInt64 ↔
      x = x' ∧ y = y' ∧ z = z' := by
  have bounds := And.intro (int8_bounds y) (int8_bounds y')
  have bounds' := And.intro (int8_bounds z) (int8_bounds z')
  rw [← Int64.toInt_inj, toInt_sum32, toInt_sum32, ← Int8.toInt_inj, ← Int8.toInt_inj,
    ← Int8.toInt_inj]
  omega

theorem decodeTwoByteUtf16_inj {x y x' y' : Int8} :
    decodeTwoByteUtf16 x y = decodeTwoByteUtf16 x' y' ↔ x = x' ∧ y = y' := by
  have bounds := And.intro (int8_bounds y) (int8_bounds y')
  rw [← Int64.toInt_inj, toInt_decodeTwoByteUtf16, toInt_decodeTwoByteUtf16, ← Int8.toInt_inj,
    ← Int8.toInt_inj]
  omega

/-- The outcome at `i` shows the last three bytes of the group at the masked index. -/
theorem decodeUtf32_eq_iff {a b : KByteArray} (size : a.size = b.size) (whole : 4 ∣ a.size) {i : ℕ}
    (hi : i < a.size) :
    decodeUtf32 a (Int32.ofNat i) = decodeUtf32 b (Int32.ofNat i) ↔
      AgreeOn a b (i % 0x10000 / 4 * 4 + 1) (i % 0x10000 / 4 * 4 + 3) := by
  have inside {k : ℕ} (hk : k < 4) : i % 0x10000 / 4 * 4 + k < a.size := by omega
  obtain ⟨x, hx⟩ := a.exists_byte (inside (k := 1) (by omega))
  obtain ⟨y, hy⟩ := a.exists_byte (inside (k := 2) (by omega))
  obtain ⟨z, hz⟩ := a.exists_byte (inside (k := 3) (by omega))
  obtain ⟨x', hx'⟩ := b.exists_byte (size ▸ inside (k := 1) (by omega))
  obtain ⟨y', hy'⟩ := b.exists_byte (size ▸ inside (k := 2) (by omega))
  obtain ⟨z', hz'⟩ := b.exists_byte (size ▸ inside (k := 3) (by omega))
  rw [decodeUtf32_eq a i hx hy hz, decodeUtf32_eq b i hx' hy' hz', Option.some.injEq, sum32_inj]
  constructor
  · rintro ⟨rfl, rfl, rfl⟩ j lower upper
    obtain rfl | rfl | rfl : j = i % 0x10000 / 4 * 4 + 1 ∨ j = i % 0x10000 / 4 * 4 + 2 ∨
        j = i % 0x10000 / 4 * 4 + 3 := by omega
    exacts [hx.trans hx'.symm, hy.trans hy'.symm, hz.trans hz'.symm]
  · intro agree
    have first := agree _ le_rfl (by omega)
    have second := agree (i % 0x10000 / 4 * 4 + 2) (by omega) (by omega)
    have third := agree _ (by omega) le_rfl
    rw [hx, hx', Option.some.injEq] at first
    rw [hy, hy', Option.some.injEq] at second
    rw [hz, hz', Option.some.injEq] at third
    exact ⟨first, second, third⟩

/-- The outcome at `i` shows both bytes of the code unit at the masked index. -/
theorem decodeUtf16_eq_iff {a b : KByteArray} (size : a.size = b.size) (whole : 2 ∣ a.size) {i : ℕ}
    (hi : i < a.size) :
    decodeUtf16 a (Int32.ofNat i) = decodeUtf16 b (Int32.ofNat i) ↔
      AgreeOn a b (i % 0x10000 / 2 * 2) (i % 0x10000 / 2 * 2 + 1) := by
  have inside : i % 0x10000 / 2 * 2 + 1 < a.size := by omega
  obtain ⟨x, hx⟩ := a.exists_byte (j := i % 0x10000 / 2 * 2) (by omega)
  obtain ⟨y, hy⟩ := a.exists_byte inside
  obtain ⟨x', hx'⟩ := b.exists_byte (j := i % 0x10000 / 2 * 2) (by omega)
  obtain ⟨y', hy'⟩ := b.exists_byte (size ▸ inside)
  rw [decodeUtf16_eq a i hx hy, decodeUtf16_eq b i hx' hy', Option.some.injEq,
    decodeTwoByteUtf16_inj]
  constructor
  · rintro ⟨rfl, rfl⟩ j lower upper
    obtain rfl | rfl : j = i % 0x10000 / 2 * 2 ∨ j = i % 0x10000 / 2 * 2 + 1 := by omega
    exacts [hx.trans hx'.symm, hy.trans hy'.symm]
  · intro agree
    have first := agree _ le_rfl (by omega)
    have second := agree _ (by omega) le_rfl
    rw [hx, hx', Option.some.injEq] at first
    rw [hy, hy', Option.some.injEq] at second
    exact ⟨first, second⟩

/-- Two arrays that agree on the aligned group around `i` (for UTF-16 also on the units next to it)
have the same outcome at `i` exactly when `i` is below `0x10000`, or they agree as well on what is
stored at the index modulo `0x10000`. -/
theorem decode_aligned_iff (a b : KByteArray) (size : a.size = b.size) (i : ℕ) (hi : i < a.size) :
    (4 ∣ a.size → AgreeOn a b (i / 4 * 4) (i / 4 * 4 + 3) →
      (decodeUtf32 a (Int32.ofNat i) = decodeUtf32 b (Int32.ofNat i) ↔
        i < 0x10000 ∨ AgreeOn a b (i % 0x10000 / 4 * 4 + 1) (i % 0x10000 / 4 * 4 + 3))) ∧
    (2 ∣ a.size → AgreeOn a b (i / 2 * 2 - 2) (i / 2 * 2 + 3) →
      (decodeUtf16 a (Int32.ofNat i) = decodeUtf16 b (Int32.ofNat i) ↔
        i < 0x10000 ∨ AgreeOn a b (i % 0x10000 / 2 * 2) (i % 0x10000 / 2 * 2 + 1))) := by
  constructor
  · intro whole agree
    rw [decodeUtf32_eq_iff size whole hi]
    constructor
    · exact Or.inr
    · rintro (near | far)
      · rw [Nat.mod_eq_of_lt near]
        exact fun j lower upper => agree j (by omega) upper
      · exact far
  · intro whole agree
    rw [decodeUtf16_eq_iff size whole hi]
    constructor
    · exact Or.inr
    · rintro (near | far)
      · rw [Nat.mod_eq_of_lt near]
        exact fun j lower upper => agree j (by omega) (by omega)
      · exact far

/-- Two arrays that differ only outside the group of index `6`. -/
theorem decode_aligned_second_group :
    decodeUtf32 ⟨[0, 0, 0, 65, 0, 0, 0, 66], by decide⟩ (Int32.ofNat 6) =
        decodeUtf32 ⟨[0, 0, 0, 67, 0, 0, 0, 66], by decide⟩ (Int32.ofNat 6) ∧
      decodeUtf16 ⟨[0, 64, 0, 65, 0, 66, 0, 67], by decide⟩ (Int32.ofNat 4) =
        decodeUtf16 ⟨[0, 68, 0, 65, 0, 66, 0, 67], by decide⟩ (Int32.ofNat 4) := by
  constructor
  · apply ((decode_aligned_iff _ _ rfl 6 (by decide)).1 (by decide) ?_).2 (Or.inl (by decide))
    intro j lower upper
    obtain ⟨k, rfl⟩ : ∃ k, j = k + 4 := ⟨j - 4, by omega⟩
    rfl
  · apply ((decode_aligned_iff _ _ rfl 4 (by decide)).2 (by decide) ?_).2 (Or.inl (by decide))
    intro j lower upper
    obtain ⟨k, rfl⟩ : ∃ k, j = k + 2 := ⟨j - 2, by omega⟩
    rfl

theorem bufferBytes_length (b : Int8) :
    (0 :: b :: List.replicate 0x10002 (0 : Int8)).length = 0x10004 := by
  rw [List.length_cons, List.length_cons, List.length_replicate]

/-- A zeroed buffer of `0x10004` bytes, but for byte `1`. -/
def buffer (b : Int8) : KByteArray :=
  ⟨0 :: b :: List.replicate 0x10002 0, by rw [bufferBytes_length]; decide⟩

theorem buffer_size (b : Int8) : (buffer b).size = 0x10004 := bufferBytes_length b

theorem buffer_agree (b b' : Int8) (first last : ℕ) (h : 2 ≤ first) :
    AgreeOn (buffer b) (buffer b') first last := by
  intro j lower upper
  obtain ⟨k, rfl⟩ : ∃ k, j = k + 2 := ⟨j - 2, by omega⟩
  rfl

/-- At index `0x10000` both decoders read the start of the buffer. -/
theorem decode_not_aligned :
    ¬ ((∀ a b : KByteArray, a.size = b.size → 4 ∣ a.size → ∀ i < a.size,
        AgreeOn a b (i / 4 * 4) (i / 4 * 4 + 3) →
        decodeUtf32 a (Int32.ofNat i) = decodeUtf32 b (Int32.ofNat i)) ∧
      (∀ a b : KByteArray, a.size = b.size → 2 ∣ a.size → ∀ i < a.size,
        AgreeOn a b (i / 2 * 2 - 2) (i / 2 * 2 + 3) →
        decodeUtf16 a (Int32.ofNat i) = decodeUtf16 b (Int32.ofNat i))) := by
  rintro ⟨claim, -⟩
  have size : (buffer 0).size = (buffer 1).size := by rw [buffer_size, buffer_size]
  have whole : 4 ∣ (buffer 0).size := by
    rw [buffer_size]
    decide
  have inside : 0x10000 < (buffer 0).size := by
    rw [buffer_size]
    decide
  have same := claim _ _ size whole 0x10000 inside (buffer_agree 0 1 _ _ (by decide))
  rw [decodeUtf32_eq_iff size whole inside] at same
  exact absurd (same 1 (by decide) (by decide)) (by decide)

end CodeNotes.Unicode
