import CodeNotes.Fresco.Processors

/-!
# The stretched mosaic

The sample of cell `(i, j)` is taken at `(i * (w / 16), j * (h / 16))`, with the quotient rounded
down (`scaledSample_eq`), while stretching the 16 by 16 bitmap maps column `i` over the `i`-th
sixteenth of the width.  The sample lies in the part it is painted over exactly when the cell is in
the first column or 16 divides the width, and the same for the rows
(`scaled_sample_in_cell_iff`).
-/

namespace CodeNotes.Fresco

open ScaledMosaicProcessor

/-- The picture of the same size in which every pixel is its own position. -/
def coordinates {C α : Type} (src : Bitmap C α) : Bitmap C (ℕ × ℕ) :=
  { Grid.ofFn src.width src.height fun x y => (x, y) with config := src.config }

/-- The position `process` samples for cell `(i, j)`: what the cell holds for `coordinates`, before
the 16 by 16 bitmap is stretched. -/
def scaledSample {C α : Type} (src : Bitmap C α) (i j : ℕ) : Option (ℕ × ℕ) := do
  (← process (fun mosaicBitmap _ _ _ => mosaicBitmap) (coordinates src)).get i j

variable {C α : Type}

/-- Samples at the truncated step are inside. -/
theorem step_lt {w i : ℕ} (hw : 1 ≤ w) (hi : i < SIZE) : i * (w / SIZE) < w := by
  unfold SIZE at *
  have bound : i * (w / 16) ≤ 15 * (w / 16) := Nat.mul_le_mul_right _ (by omega)
  omega

/-- Every pixel is in one of the sixteenths. -/
theorem cell_lt {w x : ℕ} (hx : x < w) : 16 * x / w < SIZE := by
  apply Nat.div_lt_of_lt_mul
  unfold SIZE
  omega

/-- `process` completes, and its 16 by 16 bitmap holds the samples. -/
theorem process_scaled [Zero α] (createScaledBitmap : Bitmap C α → ℕ → ℕ → Bool → Bitmap C α)
    {src : Bitmap C α} (big : SIZE < src.width ∨ SIZE < src.height) (hw : 1 ≤ src.width)
    (hh : 1 ≤ src.height) :
    ∃ mosaic, process createScaledBitmap src =
        some (createScaledBitmap mosaic src.width src.height true) ∧
      ∀ i < SIZE, ∀ j < SIZE,
        mosaic.get i j = src.get (i * (src.width / SIZE)) (j * (src.height / SIZE)) := by
  have blank : SIZE ≤ (createBitmapInternal SIZE SIZE src.config : Bitmap C α).width ∧
      SIZE ≤ (createBitmapInternal SIZE SIZE src.config : Bitmap C α).height := ⟨le_rfl, le_rfl⟩
  obtain ⟨mosaic, painted, -, holds⟩ := Bitmap.paint_eq_some blank.1 blank.2 fun i hi j hj =>
    (src.exists_get_iff _ _).2 ⟨step_lt hw hi, step_lt hh hj⟩
  refine ⟨mosaic, ?_, fun i hi j hj => holds.new i j ⟨hi, hj⟩⟩
  simp only [process, if_neg (show ¬ (src.width ≤ SIZE ∧ src.height ≤ SIZE) by omega), painted]
  rfl

theorem scaledSample_eq {src : Bitmap C α} (big : SIZE < src.width ∨ SIZE < src.height)
    (hw : 1 ≤ src.width) (hh : 1 ≤ src.height) {i j : ℕ} (hi : i < SIZE) (hj : j < SIZE) :
    scaledSample src i j = some (i * (src.width / SIZE), j * (src.height / SIZE)) := by
  have big' : SIZE < (coordinates src).width ∨ SIZE < (coordinates src).height := big
  obtain ⟨mosaic, done, holds⟩ :=
    process_scaled (fun mosaicBitmap _ _ _ => mosaicBitmap) big' hw hh
  rw [scaledSample, done]
  show mosaic.get i j = _
  rw [holds i hi j hj]
  exact Grid.get_ofFn src.width src.height _ (step_lt hw hi) (step_lt hh hj)

/-- On one side of the picture the truncated step lands in its own sixteenth only at the start, or
when nothing is truncated. -/
theorem step_in_cell_iff {w : ℕ} (hw : 1 ≤ w) (i : ℕ) :
    16 * (i * (w / 16)) / w = i ↔ i = 0 ∨ 16 ∣ w := by
  have product : i * w = 16 * (i * (w / 16)) + i * (w % 16) := by
    calc i * w = i * (16 * (w / 16) + w % 16) := by rw [Nat.div_add_mod]
      _ = 16 * (i * (w / 16)) + i * (w % 16) := by ring
  have exact_iff : i * (w % 16) = 0 ↔ i = 0 ∨ 16 ∣ w := by
    rw [Nat.mul_eq_zero, Nat.dvd_iff_mod_eq_zero]
  rw [Nat.div_eq_iff hw, ← exact_iff]
  constructor
  · rintro ⟨lower, -⟩
    omega
  · intro zero
    constructor <;> omega

/-- A cell that covers a pixel is sampled inside the part of the picture it is painted over exactly
when it is in the first column or 16 divides the width, and in the first row or 16 divides the
height. -/
theorem scaled_sample_in_cell_iff (src : Bitmap C α) (big : 16 < src.width ∨ 16 < src.height)
    (hw : 1 ≤ src.width) (hh : 1 ≤ src.height) (i j : ℕ)
    (covered : ∃ x < src.width, ∃ y < src.height,
      16 * x / src.width = i ∧ 16 * y / src.height = j) :
    (∃ x y, scaledSample src i j = some (x, y) ∧
        16 * x / src.width = i ∧ 16 * y / src.height = j) ↔
      (i = 0 ∨ 16 ∣ src.width) ∧ (j = 0 ∨ 16 ∣ src.height) := by
  obtain ⟨x, hx, y, hy, hi, hj⟩ := covered
  have hi' : i < SIZE := hi ▸ cell_lt hx
  have hj' : j < SIZE := hj ▸ cell_lt hy
  rw [scaledSample_eq big hw hh hi' hj', ← step_in_cell_iff hw,
    ← step_in_cell_iff hh]
  constructor
  · rintro ⟨x', y', sample, column, row⟩
    obtain ⟨rfl, rfl⟩ := Prod.mk.inj (Option.some.inj sample)
    exact ⟨column, row⟩
  · exact fun inside => ⟨_, _, rfl, inside⟩

/-- Both sides of a picture of 32 by 48 pixels are multiples of 16. -/
theorem scaled_sample_in_cell_even :
    ∃ x y, scaledSample (createBitmapInternal 32 48 () : Bitmap Unit ℕ) 15 3 = some (x, y) ∧
      16 * x / 32 = 15 ∧ 16 * y / 48 = 3 :=
  (scaled_sample_in_cell_iff (createBitmapInternal 32 48 () : Bitmap Unit ℕ) (by decide) (by decide)
    (by decide) 15 3 ⟨30, by decide, 9, by decide, by decide, by decide⟩).2
    ⟨Or.inr (by decide), Or.inr (by decide)⟩

/-- In a picture of 31 by 32 pixels the last column is sampled at `x = 15`, left of the middle. -/
theorem scaled_sample_not_in_cell :
    ¬ ∀ src : Bitmap Unit ℕ, 16 < src.width ∨ 16 < src.height → 1 ≤ src.width → 1 ≤ src.height →
      ∀ i j, (∃ x < src.width, ∃ y < src.height,
        16 * x / src.width = i ∧ 16 * y / src.height = j) →
      ∃ x y, scaledSample src i j = some (x, y) ∧
        16 * x / src.width = i ∧ 16 * y / src.height = j := by
  intro claim
  obtain ⟨x, y, sample, column, -⟩ := claim (createBitmapInternal 31 32 ()) (by decide) (by decide)
    (by decide) 15 0 ⟨30, by decide, 0, by decide, by decide, by decide⟩
  have taken : scaledSample (createBitmapInternal 31 32 () : Bitmap Unit ℕ) 15 0 = some (15, 0) :=
    scaledSample_eq (by decide) (by decide) (by decide) (by decide) (by decide)
  obtain ⟨rfl, -⟩ := Prod.mk.inj (Option.some.inj (taken.symm.trans sample))
  exact absurd column (by decide)

/-- If the library stretches column `i` and row `j` over the `i`-th and `j`-th sixteenth, every
pixel of the result is the sample of its cell. -/
theorem scaled_pixel [Zero α] {createScaledBitmap : Bitmap C α → ℕ → ℕ → Bool → Bitmap C α}
    (stretches : ∀ mosaic w h, ∀ x < w, ∀ y < h,
      (createScaledBitmap mosaic w h true).get x y = mosaic.get (16 * x / w) (16 * y / h))
    {src out : Bitmap C α} (big : 16 < src.width ∨ 16 < src.height)
    (done : process createScaledBitmap src = some out) {x y : ℕ} (hx : x < src.width)
    (hy : y < src.height) :
    out.get x y = (scaledSample src (16 * x / src.width) (16 * y / src.height)).bind
      fun p => src.get p.1 p.2 := by
  obtain ⟨mosaic, processed, holds⟩ := process_scaled createScaledBitmap big (by omega) (by omega)
  obtain rfl := Option.some.inj (done.symm.trans processed)
  rw [stretches mosaic _ _ x hx y hy, holds _ (cell_lt hx) _ (cell_lt hy),
    scaledSample_eq big (by omega) (by omega) (cell_lt hx) (cell_lt hy), Option.bind_some]

end CodeNotes.Fresco
