import CodeNotes.Lib.Utf8
import CodeNotes.Unicode.Encode

/-!
# UTF-8

From a continuation byte `decodeUtf8` walks back to the lead byte (`searchLead_eq`).  It then
compares the lead byte, a negative number, with `0xF0` and `0xE0` (`not_ge_E0`), so that every
character above `U+007F` is decoded as two bytes, from each of its bytes and in any array
(`decodeUtf8_near_lead`).
-/

namespace CodeNotes.Unicode

open Codec MachineInt

/-! ### Bits of one byte -/

theorem forall_int8 {p : Int8 → Prop} (h : ∀ n : Fin 256, p (octet n)) (b : Int8) : p b := by
  have hb := h ⟨b.toUInt8.toNat, b.toUInt8.toNat_lt⟩
  rwa [octet_toNat] at hb

/-- A signed byte is never as large as `0xE0`. -/
theorem not_ge_E0 (b : Int8) : ¬ b.toInt32 ≥ 0xE0 :=
  forall_int8 (p := fun b => ¬ b.toInt32 ≥ 0xE0) (by decide +kernel) b

theorem not_ge_F0 (b : Int8) : ¬ b.toInt32 ≥ 0xF0 :=
  forall_int8 (p := fun b => ¬ b.toInt32 ≥ 0xF0) (by decide +kernel) b

/-- The first bit of a byte is its sign. -/
theorem shr_eq_zero_iff (b : Int8) : b.toInt32 >>> 7 = 0 ↔ 0 ≤ b :=
  forall_int8 (p := fun b => b.toInt32 >>> 7 = 0 ↔ 0 ≤ b) (by decide +kernel) b

theorem octet_nonneg_iff {n : ℕ} (hn : n < 0x100) : 0 ≤ octet n ↔ n < 0x80 :=
  (by decide +kernel : ∀ n : Fin 256, 0 ≤ octet n ↔ n.val < 0x80) ⟨n, hn⟩

theorem octet_and_lead {n : ℕ} (lower : 0xC0 ≤ n) (hn : n < 0x100) : octet n &&& 0x40 ≠ 0 :=
  (by decide +kernel : ∀ n : Fin 256, 0xC0 ≤ n.val → octet n &&& 0x40 ≠ 0) ⟨n, hn⟩ lower

theorem octet_and_tail {n : ℕ} (lower : 0x80 ≤ n) (upper : n < 0xC0) : octet n &&& 0x40 = 0 :=
  (by decide +kernel : ∀ n : Fin 256, 0x80 ≤ n.val → n.val < 0xC0 → octet n &&& 0x40 = 0)
    ⟨n, by omega⟩ lower upper

/-! ### Characters -/

/-- The bytes after the lead byte of a multi-byte character. -/
def IsTail (b : Int8) : Prop := ∃ n, 0x80 ≤ n ∧ n < 0xC0 ∧ b = octet n

/-- A byte with its two top bits set, whether or not UTF-8 uses it. -/
def IsLead (b : Int8) : Prop := ∃ n, 0xC0 ≤ n ∧ n < 0x100 ∧ b = octet n

theorem IsTail.negative {b : Int8} (tail : IsTail b) : ¬ 0 ≤ b := by
  obtain ⟨n, lower, upper, rfl⟩ := tail
  rw [octet_nonneg_iff (by omega)]
  omega

theorem IsLead.negative {b : Int8} (lead : IsLead b) : ¬ 0 ≤ b := by
  obtain ⟨n, lower, upper, rfl⟩ := lead
  rw [octet_nonneg_iff upper]
  omega

theorem IsTail.and_eq_zero {b : Int8} (tail : IsTail b) : b &&& 0x40 = 0 := by
  obtain ⟨n, lower, upper, rfl⟩ := tail
  exact octet_and_tail lower upper

theorem IsLead.and_ne_zero {b : Int8} (lead : IsLead b) : b &&& 0x40 ≠ 0 := by
  obtain ⟨n, lower, upper, rfl⟩ := lead
  exact octet_and_lead lower upper

theorem utf8Char_eq (c : Char) : utf8Char c =
    if c.toNat ≤ 0x7F then [octet c.toNat]
    else if c.toNat ≤ 0x7FF then [octet (c.toNat / 64 % 32 + 0xC0), octet (c.toNat % 64 + 0x80)]
    else if c.toNat ≤ 0xFFFF then
      [octet (c.toNat / 4096 % 16 + 0xE0), octet (c.toNat / 64 % 64 + 0x80),
        octet (c.toNat % 64 + 0x80)]
    else
      [octet (c.toNat / 262144 % 8 + 0xF0), octet (c.toNat / 4096 % 64 + 0x80),
        octet (c.toNat / 64 % 64 + 0x80), octet (c.toNat % 64 + 0x80)] := by
  rw [utf8Char, Utf8.utf8EncodeChar_eq]
  split_ifs <;> rfl

/-- A character above `U+007F` is a lead byte and one to three tail bytes. -/
structure MultiByte (c : Char) (lead second : ℕ) (rest : List Int8) : Prop where
  eq : utf8Char c = octet lead :: octet second :: rest
  lead_ge : 0xC0 ≤ lead
  lead_lt : lead < 0x100
  second_ge : 0x80 ≤ second
  second_lt : second < 0xC0
  tail : ∀ b ∈ rest, IsTail b
  length : rest.length ≤ 2
  /-- The two leading bytes alone give the scalar value of two-byte characters only. -/
  value : lead % 32 * 64 + second % 64 = c.toNat ↔ c.toNat < 0x800

theorem utf8Char_multiByte {c : Char} (hc : ¬ c.toNat ≤ 0x7F) :
    ∃ lead second rest, MultiByte c lead second rest := by
  have upper := toNat_lt c
  have tail (n : ℕ) : IsTail (octet (n % 64 + 0x80)) := ⟨n % 64 + 0x80, by omega, by omega, rfl⟩
  have eq := utf8Char_eq c
  rw [if_neg hc] at eq
  split_ifs at eq with h₂ h₃
  · exact ⟨_, _, _, eq, by omega, by omega, by omega, by omega, by simp, by simp, by omega⟩
  · exact ⟨_, _, _, eq, by omega, by omega, by omega, by omega, by simpa using tail _, by simp,
      by omega⟩
  · exact ⟨_, _, _, eq, by omega, by omega, by omega, by omega, by simpa using ⟨tail _, tail _⟩,
      by simp, by omega⟩

/-! ### The backward search -/

/-- One round of the loop, at offset `k`. -/
theorem searchLead_cons (src : KByteArray) {n k : ℕ} (hk : k ≤ n) {b : Int8}
    (hb : src.bytes[n - k]? = some b) (rest : List Int32) :
    searchLead src (Int32.ofNat n) (Int32.ofNat k :: rest) =
      if b &&& 0x40 ≠ 0 then some (Int32.ofNat (n - k))
      else searchLead src (Int32.ofNat n) rest := by
  have hlt := (List.getElem?_eq_some_iff.1 hb).1
  have hsize := src.size_lt
  rw [searchLead, ← Int32.ofNat_sub _ _ hk, src.get_ofNat (by omega), hb]
  split_ifs with lead <;> simp [lead]

/-- The loop stops at the last byte before `index` that is not a tail byte, if it is near. -/
theorem searchLead_eq (src : KByteArray) {p off : ℕ} (near : off ≤ 3) {lead : Int8}
    (hlead : src.bytes[p]? = some lead) (bit : lead &&& 0x40 ≠ 0)
    (tails : ∀ j, 0 < j → j ≤ off → ∃ b, src.bytes[p + j]? = some b ∧ b &&& 0x40 = 0) :
    searchLead src (Int32.ofNat (p + off)) [0, 1, 2, 3] = some (Int32.ofNat p) := by
  have stop (k : ℕ) (rest : List Int32) (hk : k = off) :
      searchLead src (Int32.ofNat (p + off)) (Int32.ofNat k :: rest) = some (Int32.ofNat p) := by
    have position : p + off - k = p := by omega
    rw [searchLead_cons src (by omega) (by rw [position]; exact hlead), if_pos bit, position]
  have next (k : ℕ) (rest : List Int32) (hk : k < off) :
      searchLead src (Int32.ofNat (p + off)) (Int32.ofNat k :: rest) =
        searchLead src (Int32.ofNat (p + off)) rest := by
    obtain ⟨b, hb, zero⟩ := tails (off - k) (by omega) (by omega)
    have position : p + off - k = p + (off - k) := by omega
    rw [searchLead_cons src (by omega) (by rw [position]; exact hb), if_neg (by simpa using zero)]
  show searchLead src _ [Int32.ofNat 0, Int32.ofNat 1, Int32.ofNat 2, Int32.ofNat 3] = _
  interval_cases off
  · exact stop 0 _ rfl
  · rw [next 0 _ (by decide), stop 1 _ rfl]
  · rw [next 0 _ (by decide), next 1 _ (by decide), stop 2 _ rfl]
  · rw [next 0 _ (by decide), next 1 _ (by decide), next 2 _ (by decide), stop 3 _ rfl]

/-! ### The decoder -/

/-- The two bytes from `p` on, combined. -/
def twoBytesAt (src : KByteArray) (p : Int32) : Option Int64 := do
  return decodeTwoByteUtf8 (← src.get p) (← src.get (p + 1))

theorem twoBytesAt_ofNat (src : KByteArray) {p : ℕ} (hp : p < src.size) :
    twoBytesAt src (Int32.ofNat p) = do
      return decodeTwoByteUtf8 (← src.bytes[p]?) (← src.bytes[p + 1]?) := by
  have hsize := src.size_lt
  have next : Int32.ofNat p + 1 = Int32.ofNat (p + 1) := (Int32.ofNat_add p 1).symm
  unfold KByteArray.size at hp
  rw [twoBytesAt, next, src.get_ofNat (by omega), src.get_ofNat (by omega)]

/-- In any array a byte below `0x80` is its own value, and every other byte is decoded as two bytes
from the start that the search gives. -/
theorem decodeUtf8_eq (src : KByteArray) {i : ℕ} {b : Int8} (hb : src.bytes[i]? = some b) :
    decodeUtf8 src (Int32.ofNat i) =
      if 0 ≤ b then some b.toInt64
      else (searchLead src (Int32.ofNat i) [0, 1, 2, 3]).bind (twoBytesAt src) := by
  have hlt := (List.getElem?_eq_some_iff.1 hb).1
  have hsize := src.size_lt
  rw [decodeUtf8, src.get_ofNat (by omega), hb]
  simp only [Option.bind_eq_bind, Option.bind_some, shr_eq_zero_iff]
  split_ifs with ascii
  · rfl
  · apply Option.bind_congr
    intro p _
    unfold twoBytesAt
    cases h : src.get p with
    | none => rfl
    | some lead => simp [not_ge_F0, not_ge_E0]

/-- In any array, a byte with two top bits set and the tail bytes after it have one outcome: the
first two bytes combined. -/
theorem decodeUtf8_near_lead (src : KByteArray) {p off : ℕ} (near : off ≤ 3) {lead : Int8}
    (hlead : src.bytes[p]? = some lead) (isLead : IsLead lead)
    (tails : ∀ j, 0 < j → j ≤ off → ∃ b, src.bytes[p + j]? = some b ∧ IsTail b) :
    decodeUtf8 src (Int32.ofNat (p + off)) = twoBytesAt src (Int32.ofNat p) := by
  have found := searchLead_eq src near hlead isLead.and_ne_zero fun j positive hj => by
    obtain ⟨b, hb, tail⟩ := tails j positive hj
    exact ⟨b, hb, tail.and_eq_zero⟩
  -- the byte at the index itself is the lead byte or a tail byte, so it is not ASCII
  obtain ⟨b, hb, negative⟩ : ∃ b, src.bytes[p + off]? = some b ∧ ¬ 0 ≤ b := by
    rcases Nat.eq_zero_or_pos off with rfl | positive
    · exact ⟨lead, hlead, isLead.negative⟩
    · obtain ⟨b, hb, tail⟩ := tails off positive le_rfl
      exact ⟨b, hb, tail.negative⟩
  rw [decodeUtf8_eq src hb, if_neg negative, found, Option.bind_some]

/-- **The outcome is the same at every byte of a character, well-formed or not.** -/
theorem decodeUtf8_resynchronises (src : KByteArray) (p k : ℕ) (hk : k ≤ 3)
    (lead : ∃ b, src.bytes[p]? = some b ∧ IsLead b)
    (tails : ∀ j, 1 ≤ j → j ≤ k → ∃ b, src.bytes[p + j]? = some b ∧ IsTail b) (j : ℕ) (hj : j ≤ k) :
    decodeUtf8 src (Int32.ofNat (p + j)) = decodeUtf8 src (Int32.ofNat p) := by
  obtain ⟨b, hb, isLead⟩ := lead
  have here : decodeUtf8 src (Int32.ofNat (p + 0)) = _ :=
    decodeUtf8_near_lead src (Nat.zero_le 3) hb isLead (by omega)
  have there : decodeUtf8 src (Int32.ofNat (p + j)) = _ :=
    decodeUtf8_near_lead src (hj.trans hk) hb isLead
      fun i positive hi => tails i positive (hi.trans hj)
  rw [Nat.add_zero] at here
  rw [there, here]

/-- `FF 80 BF` is no character; all its bytes have the outcome of `FF 80`. -/
theorem decodeUtf8_resynchronises_invalid :
    decodeUtf8 ⟨[65, -1, -128, -65, 65], by decide⟩ (Int32.ofNat (1 + 2)) =
      decodeUtf8 ⟨[65, -1, -128, -65, 65], by decide⟩ (Int32.ofNat 1) := by
  apply decodeUtf8_resynchronises _ 1 2 (by decide) ⟨-1, rfl, 0xFF, by decide, by decide, by decide⟩
  · intro j lower upper
    obtain rfl | rfl : j = 1 ∨ j = 2 := by omega
    · exact ⟨-128, rfl, 0x80, by decide, by decide, by decide⟩
    · exact ⟨-65, rfl, 0xBF, by decide, by decide, by decide⟩
  · exact le_rfl

theorem toInt_decodeTwoByteUtf8 {lead second : ℕ} (hl : lead < 0x100) (hs : second < 0x100) :
    (decodeTwoByteUtf8 (octet lead) (octet second)).toInt =
      (lead % 32 * 64 + second % 64 : ℕ) := by
  have high : (((octet lead).toInt64 &&& 0x1F) <<< 6).toInt = (lead % 32 * 64 : ℕ) :=
    toInt_octet_bits hl 5 (s := 6) (by decide)
  have low : ((octet second).toInt64 &&& 0x3F).toInt = (second % 64 : ℕ) := toInt_octet_mask hs 6
  rw [decodeTwoByteUtf8, toInt_add_of_fits high low (by unfold Fits; omega), Nat.cast_add]

/-- At every byte of a multi-byte character the decoder combines its first two bytes. -/
theorem decodeUtf8_multiByte (src : KByteArray) {c : Char} {lead second : ℕ} {rest : List Int8}
    (shape : MultiByte c lead second rest) {p off : ℕ}
    (block : ∀ k < (utf8Char c).length, src.bytes[p + k]? = (utf8Char c)[k]?)
    (hoff : off < (utf8Char c).length) :
    decodeUtf8 src (Int32.ofNat (p + off)) =
      some (decodeTwoByteUtf8 (octet lead) (octet second)) := by
  have hlead : src.bytes[p]? = some (octet lead) := by
    have h := block 0 (by omega)
    rwa [shape.eq] at h
  have hsecond : src.bytes[p + 1]? = some (octet second) := by
    have h := block 1 (by rw [shape.eq]; simp)
    rwa [shape.eq] at h
  have near : off ≤ 3 := by
    have h := shape.length
    rw [shape.eq, List.length_cons, List.length_cons] at hoff
    omega
  have tail (j : ℕ) (positive : 0 < j) (hj : j ≤ off) :
      ∃ b, src.bytes[p + j]? = some b ∧ IsTail b := by
    obtain ⟨b, hb⟩ : ∃ b, (utf8Char c)[j]? = some b := ⟨_, List.getElem?_eq_getElem (by omega)⟩
    refine ⟨b, (block j (by omega)).trans hb, ?_⟩
    obtain ⟨k, rfl⟩ : ∃ k, j = k + 1 := ⟨j - 1, by omega⟩
    rw [shape.eq, List.getElem?_cons_succ] at hb
    rcases List.mem_cons.1 (List.mem_of_getElem? hb) with rfl | hrest
    · exact ⟨second, shape.second_ge, shape.second_lt, rfl⟩
    · exact shape.tail b hrest
  have start := (List.getElem?_eq_some_iff.1 hlead).1
  rw [decodeUtf8_near_lead src near hlead ⟨lead, shape.lead_ge, shape.lead_lt, rfl⟩ tail,
    twoBytesAt_ofNat src start, hlead, hsecond]
  rfl

/-- `decodeUtf8` returns the character that covers byte `i` exactly when it is below `U+0800`. -/
theorem decodeUtf8_decodesAt_iff (text : List Char) (src : KByteArray)
    (encoded : src.bytes = encode utf8Char text) (i : ℕ) (hi : i < src.size) :
    DecodesAt utf8Char decodeUtf8 text src i ↔
      ∃ c, covering utf8Char text i = some c ∧ c.toNat < 0x800 := by
  rw [KByteArray.size, encoded] at hi
  obtain ⟨before, c, after, off, cover, split, -, rfl, hoff⟩ := covering_split utf8Char hi
  have block (k : ℕ) (hk : k < (utf8Char c).length) :
      src.bytes[(encode utf8Char before).length + k]? = (utf8Char c)[k]? := by
    rw [encoded, split, List.getElem?_append_right (by omega), Nat.add_sub_cancel_left,
      List.getElem?_append_left hk]
  have target : (∃ c, covering utf8Char text ((encode utf8Char before).length + off) = some c ∧
      c.toNat < 0x800) ↔ c.toNat < 0x800 := by
    simp [cover]
  rw [target]
  by_cases ascii : c.toNat ≤ 0x7F
  · have eq := utf8Char_eq c
    rw [if_pos ascii] at eq
    have first := block off hoff
    obtain rfl : off = 0 := by
      rw [eq, List.length_singleton] at hoff
      omega
    rw [eq, List.getElem?_cons_zero] at first
    have decoded := decodeUtf8_eq src first
    rw [if_pos ((octet_nonneg_iff (by omega)).2 (by omega))] at decoded
    rw [decodesAt_iff cover decoded, Int8.toInt_toInt64, toInt_octet (by omega), signed,
      if_pos (by omega)]
    omega
  · obtain ⟨lead, second, rest, shape⟩ := utf8Char_multiByte ascii
    rw [decodesAt_iff cover (decodeUtf8_multiByte src shape block hoff),
      toInt_decodeTwoByteUtf8 shape.lead_lt (by have := shape.second_lt; omega), Nat.cast_inj]
    exact shape.value

theorem decodeUtf8_decodesAt_e_acute :
    DecodesAt utf8Char decodeUtf8 ['A', 'é'] ⟨[65, -61, -87], by decide⟩ 2 :=
  (decodeUtf8_decodesAt_iff ['A', 'é'] ⟨[65, -61, -87], by decide⟩ (by decide) 2 (by decide)).2
    ⟨'é', by decide, by decide⟩

/-- `U+4E2D` is `E4 B8 AD`; byte `0` decodes to `0x138`. -/
theorem decodeUtf8_not_decodesAt :
    ¬ ∀ (text : List Char) (src : KByteArray), src.bytes = encode utf8Char text →
      ∀ i < src.size, DecodesAt utf8Char decodeUtf8 text src i := by
  intro claim
  obtain ⟨c, hc, result⟩ := claim ['中'] ⟨[-28, -72, -83], by decide⟩ (by decide) 0 (by decide)
  have decoded : decodeUtf8 ⟨[-28, -72, -83], by decide⟩ (Int32.ofNat 0) = some 0x138 := by decide
  have cover : covering utf8Char ['中'] 0 = some '中' := by decide
  rw [cover, Option.some.injEq] at hc
  rw [decoded, ← hc] at result
  exact absurd result (by decide)

end CodeNotes.Unicode
