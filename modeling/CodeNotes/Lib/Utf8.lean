import CodeNotes.Lib.Codec

/-!
# UTF-8 texts as bytes

`utf8` encodes a text character by character; `decodeLossy` reads any bytes back, with `U+FFFD` for
each byte that starts no character.  Decoding undoes encoding (`decodeLossy_utf8`), so distinct
texts have distinct bytes, and an ASCII byte is only ever the character itself
(`mem_utf8_ascii`).
-/

namespace CodeNotes.Utf8

open Codec

def utf8 (text : List Char) : List UInt8 := encode String.utf8EncodeChar text

@[simp] theorem utf8_nil : utf8 [] = [] := rfl

theorem utf8_cons (c : Char) (text : List Char) :
    utf8 (c :: text) = String.utf8EncodeChar c ++ utf8 text := encode_cons _ c text

theorem utf8_append (text text' : List Char) : utf8 (text ++ text') = utf8 text ++ utf8 text' :=
  encode_append _ text text'

/-- A decoder that replaces what is not UTF-8. -/
def decodeLossy : List UInt8 → List Char
  | [] => []
  | b :: rest =>
    match (b :: rest).toByteArray.utf8DecodeChar? 0 with
    | some c => c :: decodeLossy (rest.drop (c.utf8Size - 1))
    | none => '�' :: decodeLossy rest
termination_by bytes => bytes.length

theorem decodeLossy_utf8 (text : List Char) : decodeLossy (utf8 text) = text := by
  induction text with
  | nil => simp [decodeLossy]
  | cons c text ih =>
    have size := String.length_utf8EncodeChar c
    have decoded :
        (String.utf8EncodeChar c ++ utf8 text).toByteArray.utf8DecodeChar? 0 = some c := by
      rw [List.toByteArray_append]
      exact ByteArray.utf8DecodeChar?_utf8EncodeChar_append
    rw [utf8_cons]
    cases bytes : String.utf8EncodeChar c with
    | nil => exact absurd bytes String.utf8EncodeChar_ne_nil
    | cons b rest =>
      rw [bytes, List.cons_append] at decoded
      rw [bytes, List.length_cons] at size
      rw [List.cons_append, decodeLossy, decoded]
      dsimp only
      rw [List.drop_left' (by omega), ih]

theorem utf8_injective : Function.Injective utf8 :=
  Function.LeftInverse.injective decodeLossy_utf8

theorem utf8_eq_nil_iff {text : List Char} : utf8 text = [] ↔ text = [] :=
  utf8_injective.eq_iff' rfl

/-! ### ASCII -/

theorem utf8EncodeChar_eq (c : Char) : String.utf8EncodeChar c =
    if c.toNat ≤ 0x7F then [UInt8.ofNat c.toNat]
    else if c.toNat ≤ 0x7FF then
      [UInt8.ofNat (c.toNat / 64 % 32 + 0xC0), UInt8.ofNat (c.toNat % 64 + 0x80)]
    else if c.toNat ≤ 0xFFFF then
      [UInt8.ofNat (c.toNat / 4096 % 16 + 0xE0), UInt8.ofNat (c.toNat / 64 % 64 + 0x80),
        UInt8.ofNat (c.toNat % 64 + 0x80)]
    else
      [UInt8.ofNat (c.toNat / 262144 % 8 + 0xF0), UInt8.ofNat (c.toNat / 4096 % 64 + 0x80),
        UInt8.ofNat (c.toNat / 64 % 64 + 0x80), UInt8.ofNat (c.toNat % 64 + 0x80)] := rfl

theorem utf8EncodeChar_ascii {c : Char} (ascii : c.toNat ≤ 0x7F) :
    String.utf8EncodeChar c = [UInt8.ofNat c.toNat] := by
  rw [utf8EncodeChar_eq, if_pos ascii]

/-- An ASCII byte of an encoded character is the whole character. -/
theorem ascii_of_mem_utf8EncodeChar {c : Char} {b : UInt8} (mem : b ∈ String.utf8EncodeChar c)
    (ascii : b.toNat ≤ 0x7F) : c.toNat = b.toNat := by
  have octet (n : ℕ) : (UInt8.ofNat n).toNat = n % 256 := UInt8.toNat_ofNat'
  rw [utf8EncodeChar_eq] at mem
  split_ifs at mem with h₁ h₂ h₃ <;>
    simp only [List.mem_cons, List.not_mem_nil, or_false] at mem
  · rw [mem, octet]
    omega
  · rcases mem with rfl | rfl <;> rw [octet] at ascii <;> omega
  · rcases mem with rfl | rfl | rfl <;> rw [octet] at ascii <;> omega
  · rcases mem with rfl | rfl | rfl | rfl <;> rw [octet] at ascii <;> omega

theorem mem_utf8EncodeChar_iff {c d : Char} (ascii : d.toNat ≤ 0x7F) :
    UInt8.ofNat d.toNat ∈ String.utf8EncodeChar c ↔ c = d := by
  have value : (UInt8.ofNat d.toNat).toNat = d.toNat := by
    rw [UInt8.toNat_ofNat']
    omega
  constructor
  · intro mem
    have same := ascii_of_mem_utf8EncodeChar mem (by omega)
    exact Char.toNat_inj.1 (same.trans value)
  · rintro rfl
    simp [utf8EncodeChar_ascii ascii]

theorem mem_utf8_ascii {text : List Char} {d : Char} (ascii : d.toNat ≤ 0x7F) :
    UInt8.ofNat d.toNat ∈ utf8 text ↔ d ∈ text := by
  rw [utf8, encode, List.mem_flatMap]
  simp only [mem_utf8EncodeChar_iff ascii, exists_eq_right]

end CodeNotes.Utf8
