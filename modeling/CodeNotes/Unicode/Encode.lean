import CodeNotes.Lib.Codec
import CodeNotes.Lib.MachineInt
import CodeNotes.Unicode.Decode

/-!
# What the decoders are for

A text is a list of Unicode scalar values (`Char`).  Its UTF-8, UTF-16 and UTF-32 encodings are
held as signed bytes; a decoder is right at byte `i` when it returns the scalar value of the
character whose encoding covers `i` (`DecodesAt`).
-/

namespace CodeNotes.Unicode

open Codec MachineInt

/-- An octet as a Kotlin `Byte`. -/
def octet (n : ℕ) : Int8 := (UInt8.ofNat n).toInt8

/-- The scalar value of a character as a Kotlin `Long`. -/
def scalar (c : Char) : Int64 := Int64.ofNat c.toNat

/-- The RFC 3629 encoding of a character. -/
def utf8Char (c : Char) : List Int8 := (String.utf8EncodeChar c).map UInt8.toInt8

/-- The UTF-16 code units of a character: one, or a surrogate pair above `U+FFFF`. -/
def utf16Units (c : Char) : List ℕ :=
  if c.toNat < 0x10000 then [c.toNat]
  else [0xD800 + (c.toNat - 0x10000) / 0x400, 0xDC00 + (c.toNat - 0x10000) % 0x400]

/-- A code unit, high byte first. -/
def unitBytes (unit : ℕ) : List Int8 := [octet (unit / 0x100), octet (unit % 0x100)]

def utf16Char (c : Char) : List Int8 := encode unitBytes (utf16Units c)

/-- A scalar value in four bytes, high byte first. -/
def utf32Char (c : Char) : List Int8 :=
  [octet (c.toNat / 0x1000000), octet (c.toNat / 0x10000 % 0x100), octet (c.toNat / 0x100 % 0x100),
    octet (c.toNat % 0x100)]

/-- `decode` returns, at byte `i`, the character of `text` whose encoding covers `i`. -/
def DecodesAt (enc : Char → List Int8) (decode : KByteArray → Int32 → Option Int64)
    (text : List Char) (src : KByteArray) (i : ℕ) : Prop :=
  ∃ c, covering enc text i = some c ∧ decode src (Int32.ofNat i) = some (scalar c)

theorem toNat_lt (c : Char) : c.toNat < 0x110000 := by
  have h := c.valid
  simp only [UInt32.isValidChar, Nat.isValidChar] at h
  show c.val.toNat < _
  omega

theorem toInt_scalar (c : Char) : (scalar c).toInt = c.toNat := by
  have h := toNat_lt c
  exact Int64.toInt_ofNat_of_lt (by omega)

/-- A returned word is the scalar value of `c` exactly when their values agree. -/
theorem eq_scalar_iff (x : Int64) (c : Char) : x = scalar c ↔ x.toInt = c.toNat := by
  rw [← Int64.toInt_inj, toInt_scalar]

theorem some_eq_scalar_iff (x : Int64) (c : Char) :
    some x = some (scalar c) ↔ x.toInt = c.toNat := by
  rw [Option.some.injEq, eq_scalar_iff]

theorem decodesAt_iff {enc : Char → List Int8} {decode : KByteArray → Int32 → Option Int64}
    {text : List Char} {src : KByteArray} {i : ℕ} {c : Char} {x : Int64}
    (cover : covering enc text i = some c) (result : decode src (Int32.ofNat i) = some x) :
    DecodesAt enc decode text src i ↔ x.toInt = c.toNat := by
  rw [← some_eq_scalar_iff, ← result]
  constructor
  · rintro ⟨c', hc', hx⟩
    rw [cover, Option.some.injEq] at hc'
    rwa [← hc'] at hx
  · exact fun h => ⟨c, cover, h⟩

theorem toInt_octet {n : ℕ} (hn : n < 0x100) : (octet n).toInt = signed n := by
  rw [octet, toInt_toInt8, UInt8.toNat_ofNat_of_lt' hn]

/-- The low bits of an octet, shifted into their place. -/
theorem toInt_octet_bits {n : ℕ} (hn : n < 0x100) (k : Fin 8) {s : ℕ} (hs : s ≤ 24) :
    (((octet n).toInt64 &&& Int64.ofNat (2 ^ k.val - 1)) <<< Int64.ofNat s).toInt =
      (n % 2 ^ k.val * 2 ^ s : ℕ) := by
  rw [octet, toInt_shl_mask _ _ hs, UInt8.toNat_ofNat_of_lt' hn]
  push_cast
  rfl

theorem toInt_octet_mask {n : ℕ} (hn : n < 0x100) (k : Fin 8) :
    ((octet n).toInt64 &&& Int64.ofNat (2 ^ k.val - 1)).toInt = (n % 2 ^ k.val : ℕ) := by
  rw [octet, toInt_and_mask, UInt8.toNat_ofNat_of_lt' hn]

theorem toInt_octet_mask8 {n : ℕ} (hn : n < 0x100) (k : Fin 8) :
    (octet n &&& Int8.ofNat (2 ^ k.val - 1)).toInt = (n % 2 ^ k.val : ℕ) := by
  rw [octet, toInt_and_mask8, UInt8.toNat_ofNat_of_lt' hn]

theorem toInt_octet_shr {n : ℕ} (hn : n < 0x100) (k : Fin 8) :
    ((octet n).toInt64 >>> Int64.ofNat k.val).toInt = signed n / 2 ^ k.val := by
  rw [octet, toInt_shr_octet, UInt8.toNat_ofNat_of_lt' hn]

theorem octet_toNat (x : Int8) : octet x.toUInt8.toNat = x := by
  rw [octet, UInt8.ofNat_toNat, Int8.toInt8_toUInt8]

theorem utf32Char_length (c : Char) : (utf32Char c).length = 4 := rfl

theorem unitBytes_length (unit : ℕ) : (unitBytes unit).length = 2 := rfl

theorem utf16Units_lt {c : Char} {unit : ℕ} (h : unit ∈ utf16Units c) : unit < 0x10000 := by
  have hc := toNat_lt c
  unfold utf16Units at h
  split_ifs at h with small
  · rw [List.mem_singleton] at h
    omega
  · simp only [List.mem_cons, List.not_mem_nil, or_false] at h
    omega

/-- The bytes of a text in UTF-16 are the bytes of its code units. -/
theorem encode_utf16Char (text : List Char) :
    encode utf16Char text = encode unitBytes (encode utf16Units text) := by
  induction text with
  | nil => rfl
  | cons c text ih => rw [encode_cons, encode_cons, encode_append, ih, utf16Char]

end CodeNotes.Unicode
