import Mathlib.Data.List.Basic
import Mathlib.Tactic

/-!
# Symbol-by-symbol encodings

An encoding sends every symbol of a text to a block of units and concatenates the blocks.  The
symbol at position `i` of the encoded text is the one whose block covers `i` (`covering`).  This
file splits an encoded text around the covering block (`covering_split`) and, for blocks of one
fixed width, computes the units of a symbol by multiplication (`getElem?_encode_of_width`).
-/

namespace CodeNotes.Codec

variable {α β : Type*} (enc : α → List β)

/-- The concatenated blocks of a text. -/
def encode (text : List α) : List β := text.flatMap enc

/-- The symbol whose block covers position `i`. -/
def covering : List α → ℕ → Option α
  | [], _ => none
  | a :: text, i => if i < (enc a).length then some a else covering text (i - (enc a).length)

@[simp] theorem encode_nil : encode enc [] = [] := rfl

@[simp] theorem encode_cons (a : α) (text : List α) :
    encode enc (a :: text) = enc a ++ encode enc text := rfl

@[simp] theorem encode_append (text text' : List α) :
    encode enc (text ++ text') = encode enc text ++ encode enc text' :=
  List.flatMap_append

/-- Around the block that covers `i` the encoded text is `before`, the block, `after`. -/
theorem covering_split {text : List α} {i : ℕ} (hi : i < (encode enc text).length) :
    ∃ before a after off, covering enc text i = some a ∧
      encode enc text = encode enc before ++ (enc a ++ encode enc after) ∧
      text = before ++ a :: after ∧
      i = (encode enc before).length + off ∧ off < (enc a).length := by
  induction text generalizing i with
  | nil => simp at hi
  | cons a text ih =>
    by_cases h : i < (enc a).length
    · exact ⟨[], a, text, i, by simp [covering, h], by simp, by simp, by simp, h⟩
    · rw [encode_cons, List.length_append] at hi
      obtain ⟨before, b, after, off, hb, hsplit, htext, hoff, hlt⟩ :=
        ih (i := i - (enc a).length) (by omega)
      refine ⟨a :: before, b, after, off, ?_, ?_, ?_, ?_, hlt⟩
      · simp only [covering, if_neg h, hb]
      · simp [hsplit]
      · simp [htext]
      · simp only [encode_cons, List.length_append]
        omega

/-! ### Blocks of one width -/

section Width

variable {w : ℕ} (width : ∀ a, (enc a).length = w)
include width

theorem length_encode_of_width (text : List α) : (encode enc text).length = text.length * w := by
  induction text with
  | nil => simp
  | cons a text ih =>
    rw [encode_cons, List.length_append, ih, width, List.length_cons, Nat.succ_mul, Nat.add_comm]

/-- Unit `k` of block `n` sits at position `n * w + k`. -/
theorem getElem?_encode_of_width {text : List α} {n k : ℕ} {a : α} (ha : text[n]? = some a)
    (hk : k < w) : (encode enc text)[n * w + k]? = (enc a)[k]? := by
  induction text generalizing n with
  | nil => simp at ha
  | cons b text ih =>
    rw [encode_cons]
    cases n with
    | zero =>
      simp only [List.getElem?_cons_zero, Option.some.injEq] at ha
      subst ha
      rw [Nat.zero_mul, Nat.zero_add, List.getElem?_append_left (by rw [width]; exact hk)]
    | succ n =>
      rw [List.getElem?_cons_succ] at ha
      have hpos : (n + 1) * w + k = (enc b).length + (n * w + k) := by
        rw [width, Nat.succ_mul]
        omega
      rw [hpos, List.getElem?_append_right (by omega), Nat.add_sub_cancel_left, ih ha]

end Width

end CodeNotes.Codec
