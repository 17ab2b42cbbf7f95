import Mathlib.Tactic

/-!
# Parcels

`android.os.Parcel` as both sides of a transaction see it: a first-in first-out buffer of 32-bit
words.  `writeInterfaceToken` puts header words (their number and values belong to the platform)
and the descriptor in front of the arguments, and only `enforceInterface` skips them.  Every write
is undone by the matching read (`readInt_cons`, `readLong_append`, `readString_append`,
`enforceInterface_append`).
-/

namespace CodeNotes.Binder

/-- A Java `String`: its UTF-16 code units. -/
abbrev JString := List UInt16

/-- A Java string literal of ASCII characters. -/
def jstring (s : String) : JString := s.toList.map fun c => UInt16.ofNat c.toNat

structure Parcel where
  words : List Int32
  deriving DecidableEq, Repr

namespace Parcel

def obtain : Parcel := ⟨[]⟩

/-! ### Words -/

def writeInt (p : Parcel) (val : Int32) : Parcel := ⟨p.words ++ [val]⟩

/-- The next word; past the end of the buffer the platform answers `0`. -/
def readInt : Parcel → Int32 × Parcel
  | ⟨[]⟩ => (0, ⟨[]⟩)
  | ⟨w :: words⟩ => (w, ⟨words⟩)

@[simp] theorem readInt_cons (w : Int32) (words : List Int32) :
    readInt ⟨w :: words⟩ = (w, ⟨words⟩) := rfl

def longWords (val : Int64) : List Int32 :=
  [Int32.ofBitVec (val.toBitVec.extractLsb' 0 32), Int32.ofBitVec (val.toBitVec.extractLsb' 32 32)]

/-- The low word goes first. -/
def writeLong (p : Parcel) (val : Int64) : Parcel := ⟨p.words ++ longWords val⟩

def readLong (p : Parcel) : Int64 × Parcel :=
  let (low, p) := p.readInt
  let (high, p) := p.readInt
  (Int64.ofBitVec (high.toBitVec ++ low.toBitVec), p)

theorem readLong_append (val : Int64) (words : List Int32) :
    readLong ⟨longWords val ++ words⟩ = (val, ⟨words⟩) := by
  have join : val.toBitVec.extractLsb' 32 32 ++ val.toBitVec.extractLsb' 0 32 = val.toBitVec := by
    rw [BitVec.extractLsb'_append_extractLsb'_eq_extractLsb' (by rfl)]
    simp
  simp only [readLong, longWords, List.cons_append, List.nil_append, readInt_cons,
    Int32.toBitVec_ofBitVec, join, Int64.ofBitVec_toBitVec]

/-! ### Strings -/

/-- Two code units to a word, the last word padded with zero. -/
def pack : List UInt16 → List Int32
  | [] => []
  | [u] => [Int32.ofBitVec ((0 : BitVec 16) ++ u.toBitVec)]
  | u :: v :: units => Int32.ofBitVec (v.toBitVec ++ u.toBitVec) :: pack units

def unpack (words : List Int32) : List UInt16 :=
  words.flatMap fun w =>
    [UInt16.ofBitVec (w.toBitVec.extractLsb' 0 16), UInt16.ofBitVec (w.toBitVec.extractLsb' 16 16)]

theorem length_pack (units : List UInt16) : (pack units).length = (units.length + 1) / 2 := by
  induction units using pack.induct with
  | case1 => rfl
  | case2 u => simp [pack]
  | case3 u v units ih =>
    simp only [pack, List.length_cons, ih]
    omega

theorem unpack_pack (units : List UInt16) (n : ℕ) (hn : n ≤ units.length) :
    (unpack (pack units)).take n = units.take n := by
  have low (u v : BitVec 16) : (v ++ u).extractLsb' 0 16 = u := by
    rw [BitVec.extractLsb'_append_eq_of_add_le (by decide)]
    simp
  have high (u v : BitVec 16) : (v ++ u).extractLsb' 16 16 = v := by
    rw [BitVec.extractLsb'_append_eq_of_le (by decide)]
    simp
  induction units using pack.induct generalizing n with
  | case1 => simp [pack, unpack]
  | case2 u =>
    simp only [List.length_singleton] at hn
    interval_cases n <;> simp [pack, unpack, low]
  | case3 u v units ih =>
    have step : unpack (pack (u :: v :: units)) = u :: v :: unpack (pack units) := by
      simp only [pack, unpack, List.flatMap_cons, Int32.toBitVec_ofBitVec, low, high,
        UInt16.ofBitVec_toBitVec, List.cons_append, List.nil_append]
    rw [step]
    match n, hn with
    | 0, _ => rfl
    | 1, _ => rfl
    | n + 2, hn =>
      simp only [List.length_cons] at hn
      simp only [List.take_succ_cons, ih n (by omega)]

/-- The length, then the code units with a terminating zero; `null` is the length `-1`. -/
def stringWords : Option JString → List Int32
  | none => [-1]
  | some s => Int32.ofNat s.length :: pack (s ++ [0])

def writeString (p : Parcel) (val : Option JString) : Parcel := ⟨p.words ++ stringWords val⟩

def readString (p : Parcel) : Option JString × Parcel :=
  let (size, p) := p.readInt
  if size < 0 then (none, p)
  else
    let size := size.toNatClampNeg
    (some ((unpack (p.words.take (size / 2 + 1))).take size), ⟨p.words.drop (size / 2 + 1)⟩)

theorem readString_append (val : Option JString) (short : ∀ s ∈ val, s.length < 2 ^ 31)
    (words : List Int32) : readString ⟨stringWords val ++ words⟩ = (val, ⟨words⟩) := by
  cases val with
  | none => rfl
  | some s =>
    have hs : s.length < 2 ^ 31 := short s rfl
    have nonneg : ¬ Int32.ofNat s.length < 0 := by
      rw [Int32.lt_iff_toInt_lt, Int32.toInt_ofNat_of_lt hs]
      simp
    have length : (pack (s ++ [0])).length = s.length / 2 + 1 := by
      rw [length_pack, List.length_append, List.length_singleton]
      omega
    simp only [readString, stringWords, List.cons_append, readInt_cons, if_neg nonneg,
      Int32.toNatClampNeg_ofNat_of_lt hs, List.take_left' length, List.drop_left' length]
    rw [unpack_pack _ _ (by simp), List.take_left]

/-! ### The interface token and the exception header -/

/-- The words of an interface token: the platform's header words, then the descriptor. -/
def tokenWords (header : List Int32) (descriptor : JString) : List Int32 :=
  header ++ stringWords (some descriptor)

def writeInterfaceToken (header : List Int32) (p : Parcel) (descriptor : JString) : Parcel :=
  ⟨p.words ++ tokenWords header descriptor⟩

/-- Skips the token; a descriptor other than the expected one raises `SecurityException`. -/
def enforceInterface (header : List Int32) (p : Parcel) (descriptor : JString) : Option Parcel :=
  let (name, p) := readString ⟨p.words.drop header.length⟩
  if name = some descriptor then some p else none

theorem enforceInterface_append (header : List Int32) (descriptor : JString)
    (short : descriptor.length < 2 ^ 31) (words : List Int32) :
    enforceInterface header ⟨tokenWords header descriptor ++ words⟩ descriptor = some ⟨words⟩ := by
  have read := readString_append (some descriptor) (by simpa using short) words
  simp only [enforceInterface, tokenWords, List.append_assoc, List.drop_left, read, if_true]

def writeNoException (p : Parcel) : Parcel := p.writeInt 0

/-- Raises the exception the server wrote, if any. -/
def readException (p : Parcel) : Option Parcel :=
  let (code, p) := p.readInt
  if code = 0 then some p else none

end Parcel

end CodeNotes.Binder
