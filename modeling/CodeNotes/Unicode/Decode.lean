import Mathlib.Tactic

/-!
# The Kotlin decoders

`decodeUtf8`, `decodeUtf16` and `decodeUtf32` of `decode.kt`, which decode the character around an
arbitrary index of a byte array.  Kotlin's `Byte`, `Int` and `Long` are `Int8`, `Int32` and
`Int64`: `toInt` and `toLong` extend the sign, `shr` is the arithmetic shift, and an index outside
the array raises an exception (`none`).
-/

namespace CodeNotes.Unicode

/-- A Kotlin `ByteArray`; its size is a non-negative `Int`. -/
structure KByteArray where
  bytes : List Int8
  size_lt : bytes.length < 2 ^ 31

namespace KByteArray

def size (src : KByteArray) : ℕ := src.bytes.length

/-- `src.get(index)`, with `none` for `ArrayIndexOutOfBoundsException`. -/
def get (src : KByteArray) (index : Int32) : Option Int8 :=
  if index < 0 then none else src.bytes[index.toNatClampNeg]?

theorem get_ofNat (src : KByteArray) {n : ℕ} (hn : n < 2 ^ 31) :
    src.get (Int32.ofNat n) = src.bytes[n]? := by
  have nonneg : ¬ Int32.ofNat n < 0 := by
    rw [Int32.lt_iff_toInt_lt, Int32.toInt_ofNat_of_lt hn]
    simp
  rw [get, if_neg nonneg, Int32.toNatClampNeg_ofNat_of_lt hn]

/-- Reading `k` positions further on, as long as the position itself is inside the array. -/
theorem get_ofNat_add (src : KByteArray) {n k : ℕ} {b : Int8} (hb : src.bytes[n + k]? = some b) :
    src.get (Int32.ofNat n + Int32.ofNat k) = some b := by
  have hlt := (List.getElem?_eq_some_iff.1 hb).1
  have hsize := src.size_lt
  rw [← Int32.ofNat_add, get_ofNat src (by omega), hb]

end KByteArray

/-! ## UTF-32 -/

def decodeUtf32 (src : KByteArray) (index : Int32) : Option Int64 := do
  let indexForDecode := index &&& 0xFFFC
  let firstByteValue : Int64 := 0
  let secondByteValue := (← src.get (indexForDecode + 1)).toInt64 <<< 16
  let thirdByteValue := (← src.get (indexForDecode + 2)).toInt64 <<< 8
  let fourthByteValue := (← src.get (indexForDecode + 3)).toInt64
  return firstByteValue + secondByteValue + thirdByteValue + fourthByteValue

/-! ## UTF-8 -/

def decodeOneByteUtf8 (byte : Int8) : Int64 := byte.toInt64

def decodeTwoByteUtf8 (first second : Int8) : Int64 :=
  let firstValue := (first.toInt64 &&& 0x1F) <<< 6
  let secondValue := second.toInt64 &&& 0x3F
  firstValue + secondValue

def decodeThreeByteUtf8 (first second third : Int8) : Int64 :=
  let firstValue := (first.toInt64 &&& 0xF) <<< 12
  let secondValue := (second.toInt64 &&& 0x3F) <<< 6
  let thirdValue := third.toInt64 &&& 0x3F
  firstValue + secondValue + thirdValue

/-- The source reads `third` again for the last six bits; `fourth` is not used. -/
def decodeFourByteUtf8 (first second third _fourth : Int8) : Int64 :=
  let firstValue := (first.toInt64 &&& 0x7) <<< 18
  let secondValue := (second.toInt64 &&& 0x3F) <<< 12
  let thirdValue := (third.toInt64 &&& 0x3F) <<< 6
  let fourthValue := third.toInt64 &&& 0x3F
  firstValue + secondValue + thirdValue + fourthValue

/-- The backward search for the lead byte over the loop's remaining offsets; `indexOfDecode`
keeps its initial `0` when no offset stops the loop. -/
def searchLead (src : KByteArray) (index : Int32) : List Int32 → Option Int32
  | [] => some 0
  | i :: rest => do
    let byte ← src.get (index - i)
    if byte &&& 0x40 ≠ 0 then return index - i
    searchLead src index rest

def decodeUtf8 (src : KByteArray) (index : Int32) : Option Int64 := do
  let indexedByte ← src.get index
  let firstByteValue := indexedByte.toInt32 >>> 7
  if firstByteValue = 0 then
    return decodeOneByteUtf8 indexedByte
  let indexOfDecode ← searchLead src index [0, 1, 2, 3]
  let firstByte ← src.get indexOfDecode
  -- the comparison widens the signed byte to an `Int`
  if firstByte.toInt32 ≥ 0xF0 then
    return decodeFourByteUtf8 (← src.get indexOfDecode) (← src.get (indexOfDecode + 1))
      (← src.get (indexOfDecode + 2)) (← src.get (indexOfDecode + 3))
  else if firstByte.toInt32 ≥ 0xE0 then
    return decodeThreeByteUtf8 (← src.get indexOfDecode) (← src.get (indexOfDecode + 1))
      (← src.get (indexOfDecode + 2))
  else
    return decodeTwoByteUtf8 (← src.get indexOfDecode) (← src.get (indexOfDecode + 1))

/-! ## UTF-16 -/

def decodeTwoByteUtf16 (first second : Int8) : Int64 :=
  let firstValue := first.toInt64 <<< 8
  let secondValue := second.toInt64
  firstValue + secondValue

/-- The source shifts `third` by six although its comment says eight. -/
def decodeFourByteUtf16 (first second third fourth : Int8) : Int64 :=
  let frontW := (first &&& 0x03).toInt64 <<< 2
  let endW := second.toInt64 >>> 6
  let allW := frontW + endW
  let allUValue := (allW + 1) <<< 16
  let secondValue := (second.toInt64 &&& 0x3F) <<< 10
  let thirdValue := (third.toInt64 &&& 0x03) <<< 6
  let fourthValue := fourth.toInt64
  allUValue + secondValue + thirdValue + fourthValue

def decodeUtf16 (src : KByteArray) (index : Int32) : Option Int64 := do
  let index2Align := index &&& 0xFFFE
  let codeUnitValue :=
    ((← src.get index2Align).toInt64 <<< 8) + (← src.get (index2Align + 1)).toInt64
  if codeUnitValue < 0xD800 ∨ codeUnitValue > 0xDFFF then
    return decodeTwoByteUtf16 (← src.get index2Align) (← src.get (index2Align + 1))
  else if 0xD800 ≤ codeUnitValue ∧ codeUnitValue < 0xDC00 then
    return decodeFourByteUtf16 (← src.get index2Align) (← src.get (index2Align + 1))
      (← src.get (index2Align + 2)) (← src.get (index2Align + 3))
  else
    return decodeFourByteUtf16 (← src.get (index2Align - 2)) (← src.get (index2Align - 1))
      (← src.get index2Align) (← src.get (index2Align + 1))

end CodeNotes.Unicode
