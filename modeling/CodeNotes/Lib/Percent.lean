import CodeNotes.Lib.MachineInt
import CodeNotes.Lib.Utf8

/-!
# Percent encoding of URL paths

A browser sends a path with the characters of the path percent-encode set escaped (`encodePath`); a
Go server undoes every escape it finds (`unescape`, as `net/url` does).  A path without `%` comes
through unchanged (`unescape_encodePath`), and each `%` the path itself has costs two bytes
(`length_unescape_encodePath`).
-/

namespace CodeNotes.Url

open Codec MachineInt Utf8

/-! ### Percent encoding -/

/-- The path percent-encode set. -/
def inPathSet (c : Char) : Bool :=
  c.toNat ≤ 0x20 || 0x7E < c.toNat ||
    c ∈ ['\x22', '#', '<', '>', '?', '^', '\x60', '\x7b', '\x7d']

def hexDigit (n : UInt8) : UInt8 := if n < 10 then 0x30 + n else 0x37 + n

def encodeByte (b : UInt8) : List UInt8 := [0x25, hexDigit (b / 16), hexDigit (b % 16)]

def encodeChar (c : Char) : List UInt8 :=
  if inPathSet c then encode encodeByte (String.utf8EncodeChar c) else String.utf8EncodeChar c

/-- A path as it is sent. -/
def encodePath (path : List Char) : List UInt8 := encode encodeChar path

def unhex (b : UInt8) : Option UInt8 :=
  if 0x30 ≤ b ∧ b ≤ 0x39 then some (b - 0x30)
  else if 0x61 ≤ b ∧ b ≤ 0x66 then some (b - 0x61 + 10)
  else if 0x41 ≤ b ∧ b ≤ 0x46 then some (b - 0x41 + 10)
  else none

/-- `unescape` of `net/url`; a `%` without two hexadecimal digits is an error. -/
def unescape : List UInt8 → Option (List UInt8)
  | [] => some []
  | b :: rest =>
    if b = 0x25 then
      match rest with
      | hi :: lo :: rest =>
        match unhex hi, unhex lo with
        | some hi, some lo => (unescape rest).map ((hi * 16 + lo) :: ·)
        | _, _ => none
      | _ => none
    else (unescape rest).map (b :: ·)

theorem unescape_cons {b : UInt8} (plain : b ≠ 0x25) (rest : List UInt8) :
    unescape (b :: rest) = (unescape rest).map (b :: ·) := by
  conv_lhs => unfold unescape
  exact if_neg plain

theorem unhex_hexDigit (b : UInt8) :
    unhex (hexDigit (b / 16)) = some (b / 16) ∧ unhex (hexDigit (b % 16)) = some (b % 16) ∧
      b / 16 * 16 + b % 16 = b :=
  forall_octet (p := fun b => unhex (hexDigit (b / 16)) = some (b / 16) ∧
    unhex (hexDigit (b % 16)) = some (b % 16) ∧ b / 16 * 16 + b % 16 = b) (by decide +kernel) b

theorem unescape_encodeByte (b : UInt8) (rest : List UInt8) :
    unescape (encodeByte b ++ rest) = (unescape rest).map (b :: ·) := by
  obtain ⟨high, low, sum⟩ := unhex_hexDigit b
  rw [encodeByte, List.cons_append, List.cons_append, List.cons_append, List.nil_append, unescape,
    if_pos rfl, high, low]
  dsimp only
  rw [sum]

theorem unescape_encode_encodeByte (bytes rest : List UInt8) :
    unescape (encode encodeByte bytes ++ rest) = (unescape rest).map (bytes ++ ·) := by
  induction bytes with
  | nil => simp
  | cons b bytes ih =>
    rw [encode_cons, List.append_assoc, unescape_encodeByte, ih, Option.map_map]
    rfl

/-- A byte of an unencoded character is that character. -/
theorem utf8EncodeChar_of_not_inPathSet {c : Char} (plain : inPathSet c = false) :
    String.utf8EncodeChar c = [UInt8.ofNat c.toNat] := by
  apply utf8EncodeChar_ascii
  simp only [inPathSet, Bool.or_eq_false_iff, decide_eq_false_iff_not] at plain
  omega

theorem percent_notMem {c : Char} (hc : c ≠ '%') : (0x25 : UInt8) ∉ String.utf8EncodeChar c :=
  fun mem => hc ((mem_utf8EncodeChar_iff (d := '%') (by decide)).1 mem)

theorem unescape_encodeChar {c : Char} (hc : c ≠ '%') (rest : List UInt8) :
    unescape (encodeChar c ++ rest) = (unescape rest).map (String.utf8EncodeChar c ++ ·) := by
  unfold encodeChar
  split_ifs with special
  · exact unescape_encode_encodeByte _ rest
  · have single := utf8EncodeChar_of_not_inPathSet (Bool.not_eq_true _ ▸ special)
    have percent := percent_notMem hc
    rw [single, List.mem_singleton] at percent
    rw [single, List.cons_append, unescape_cons (Ne.symm percent)]
    rfl

theorem unescape_encodePath {path : List Char} (plain : '%' ∉ path) :
    unescape (encodePath path) = some (utf8 path) := by
  induction path with
  | nil => rfl
  | cons c path ih =>
    rw [List.mem_cons, not_or] at plain
    rw [encodePath, encode_cons, unescape_encodeChar (Ne.symm plain.1), ← encodePath, ih plain.2,
      utf8_cons]
    rfl

theorem ne_percent_of_unhex {b n : UInt8} (digit : unhex b = some n) : b ≠ 0x25 := by
  rintro rfl
  have none_digit : unhex 0x25 = none := by decide
  rw [none_digit] at digit
  cases digit

/-- Each escape shortens the bytes by two. -/
theorem length_of_unescape {bytes out : List UInt8} (unescaped : unescape bytes = some out) :
    out.length + 2 * bytes.count 0x25 = bytes.length := by
  fun_induction unescape bytes generalizing out with
  | case1 =>
    cases unescaped
    rfl
  | case2 hi lo rest _ _ low high ih =>
    obtain ⟨tail, rested, rfl⟩ := Option.map_eq_some_iff.1 unescaped
    have counted := ih rested
    rw [List.count_cons_self, List.count_cons_of_ne (ne_percent_of_unhex high),
      List.count_cons_of_ne (ne_percent_of_unhex low)]
    simp only [List.length_cons]
    omega
  | case3 => cases unescaped
  | case4 => cases unescaped
  | case5 b rest plain ih =>
    obtain ⟨tail, rested, rfl⟩ := Option.map_eq_some_iff.1 unescaped
    have counted := ih rested
    rw [List.count_cons_of_ne plain]
    simp only [List.length_cons]
    omega

theorem count_encodeByte (b : UInt8) : (encodeByte b).count 0x25 = 1 :=
  forall_octet (p := fun b => (encodeByte b).count 0x25 = 1) (by decide +kernel) b

theorem count_encode_encodeByte (bytes : List UInt8) :
    (encode encodeByte bytes).count 0x25 = bytes.length := by
  induction bytes with
  | nil => rfl
  | cons b bytes ih =>
    rw [encode_cons, List.count_append, count_encodeByte, ih, List.length_cons, Nat.add_comm]

theorem length_encodeChar (c : Char) :
    (encodeChar c).length + 2 * [c].count '%' =
      (String.utf8EncodeChar c).length + 2 * (encodeChar c).count 0x25 := by
  unfold encodeChar
  split_ifs with special
  · have other : c ≠ '%' := by
      rintro rfl
      exact absurd special (by decide)
    have width : ∀ b, (encodeByte b).length = 3 := fun _ => rfl
    rw [count_encode_encodeByte, length_encode_of_width encodeByte width,
      List.count_cons_of_ne other, List.count_nil]
    omega
  · by_cases hc : c = '%'
    · subst hc
      rfl
    · rw [List.count_eq_zero_of_not_mem (percent_notMem hc), List.count_cons_of_ne hc,
        List.count_nil]

/-- What is left of a path after its escapes are undone. -/
theorem length_unescape_encodePath {path : List Char} {out : List UInt8}
    (unescaped : unescape (encodePath path) = some out) :
    out.length + 2 * path.count '%' = (utf8 path).length := by
  have encoded : (encodePath path).length + 2 * path.count '%' =
      (utf8 path).length + 2 * (encodePath path).count 0x25 := by
    clear unescaped
    induction path with
    | nil => rfl
    | cons c path ih =>
      have head := length_encodeChar c
      rw [encodePath] at ih ⊢
      rw [encode_cons, utf8_cons, List.length_append, List.length_append, List.count_append,
        ← List.singleton_append, List.count_append]
      omega
  have escapes := length_of_unescape unescaped
  omega

end CodeNotes.Url
