import CodeNotes.Fresco.Processors

/-!
# The per-pixel mosaic

The block size `w / 16 + 1` is rounded up, so the blocks always cover the picture (`block_lt`), but
the last samples fall outside unless the quotient and the remainder of each side by 16 add up to at
least 16 (`sample_lt_iff`).  Where they fit, the result is block-constant, and processing it again
changes nothing (`each_pixel_mosaic`).
-/

namespace CodeNotes.Fresco

variable {C α : Type} [Zero α]

open EachPixelMosaicProcessor

/-! ### One side of the picture -/

/-- Sixteen blocks cover the side. -/
theorem block_lt {w x : ℕ} (hx : x < w) : x / (w / SIZE + 1) < SIZE := by
  apply Nat.div_lt_of_lt_mul
  unfold SIZE
  omega

/-- All samples of a side are inside. -/
theorem sample_lt_iff (w : ℕ) :
    (∀ i < SIZE, i * (w / SIZE + 1) < w) ↔ SIZE ≤ w / SIZE + w % SIZE := by
  unfold SIZE
  constructor
  · intro inside
    have last := inside 15 (by omega)
    omega
  · intro wide i hi
    have bound : i * (w / 16 + 1) ≤ 15 * (w / 16 + 1) := Nat.mul_le_mul_right _ (by omega)
    omega

/-- The sample of the block of `x` is the first pixel of that block. -/
theorem sample_of_block (x m : ℕ) : x / m * m = x - x % m := by
  have := Nat.div_add_mod' x m
  omega

/-! ### The processor -/

/-- Every block has its sample inside the picture. -/
def Sampled (w h : ℕ) : Prop :=
  SIZE ≤ w / SIZE + w % SIZE ∧ SIZE ≤ h / SIZE + h % SIZE

theorem process_small {src : Bitmap C α} (small : src.width ≤ SIZE ∧ src.height ≤ SIZE) :
    process src = some src := by
  simp only [process, if_pos small]
  rfl

/-- A larger picture whose samples are inside: every pixel is the first one of its block. -/
theorem process_sampled {src : Bitmap C α} (big : ¬ (src.width ≤ SIZE ∧ src.height ≤ SIZE))
    (sampled : Sampled src.width src.height) :
    ∃ out, process src = some out ∧ out.config = src.config ∧ out.width = src.width ∧
      out.height = src.height ∧ ∀ x < src.width, ∀ y < src.height,
        out.get x y = src.get (x - x % (src.width / SIZE + 1))
          (y - y % (src.height / SIZE + 1)) := by
  have columns := (sample_lt_iff src.width).2 sampled.1
  have rows := (sample_lt_iff src.height).2 sampled.2
  -- the table of samples
  obtain ⟨array, filled, table⟩ := paint_eq_some (w := SIZE) (h := SIZE)
    (g := Grid.ofFn SIZE SIZE fun _ _ => 0) le_rfl le_rfl
    fun i hi j hj => (src.exists_get_iff _ _).2 ⟨columns i hi, rows j hj⟩
  have read (x : ℕ) (hx : x < src.width) (y : ℕ) (hy : y < src.height) :
      array.get (x / (src.width / SIZE + 1)) (y / (src.height / SIZE + 1)) =
        src.get (x - x % (src.width / SIZE + 1)) (y - y % (src.height / SIZE + 1)) := by
    rw [table.new _ _ ⟨block_lt hx, block_lt hy⟩, sample_of_block, sample_of_block]
  have values (x : ℕ) (hx : x < src.width) (y : ℕ) (hy : y < src.height) :
      ∃ a, array.get (x / (src.width / SIZE + 1)) (y / (src.height / SIZE + 1)) = some a := by
    rw [read x hx y hy]
    exact (src.exists_get_iff _ _).2 ⟨by omega, by omega⟩
  -- the picture that is read off the table
  have blank :
      src.width ≤ (createBitmapInternal src.width src.height src.config : Bitmap C α).width ∧
      src.height ≤ (createBitmapInternal src.width src.height src.config : Bitmap C α).height :=
    ⟨le_rfl, le_rfl⟩
  obtain ⟨out, painted, config, picture⟩ := Bitmap.paint_eq_some blank.1 blank.2 values
  refine ⟨out, ?_, config, picture.width, picture.height, ?_⟩
  · simp only [process, if_neg big, filled]
    exact painted
  · intro x hx y hy
    rw [picture.new x y ⟨hx, hy⟩, read x hx y hy]

/-- A larger picture with a sample outside: the sampling loop fails. -/
theorem process_unsampled {src : Bitmap C α} (big : ¬ (src.width ≤ SIZE ∧ src.height ≤ SIZE))
    (unsampled : ¬ Sampled src.width src.height) : process src = none := by
  have missing : ∃ i < SIZE, ∃ j < SIZE,
      src.get (i * (src.width / SIZE + 1)) (j * (src.height / SIZE + 1)) = none := by
    rcases not_and_or.1 unsampled with narrow | narrow
    · rw [← sample_lt_iff] at narrow
      push Not at narrow
      obtain ⟨i, hi, outside⟩ := narrow
      refine ⟨i, hi, 0, by decide, ?_⟩
      apply (src.get_eq_none_iff _ _).2
      omega
    · rw [← sample_lt_iff] at narrow
      push Not at narrow
      obtain ⟨j, hj, outside⟩ := narrow
      refine ⟨0, by decide, j, hj, ?_⟩
      apply (src.get_eq_none_iff _ _).2
      omega
  obtain ⟨i, hi, j, hj, outside⟩ := missing
  have failed : paint SIZE SIZE (fun i j =>
      src.get (i * (src.width / SIZE + 1)) (j * (src.height / SIZE + 1)))
      (Grid.ofFn SIZE SIZE fun _ _ => 0) = none := paint_eq_none hi hj outside _
  simp only [process, if_neg big, failed]
  rfl

theorem process_completes_iff (src : Bitmap C α) :
    (∃ out, process src = some out) ↔
      src.width ≤ SIZE ∧ src.height ≤ SIZE ∨ Sampled src.width src.height := by
  by_cases small : src.width ≤ SIZE ∧ src.height ≤ SIZE
  · exact iff_of_true ⟨src, process_small small⟩ (Or.inl small)
  by_cases sampled : Sampled src.width src.height
  · obtain ⟨out, done, -⟩ := process_sampled small sampled
    exact iff_of_true ⟨out, done⟩ (Or.inr sampled)
  · rw [process_unsampled small sampled]
    simp [small, sampled]

/-! ### Nothing outside the picture -/

/-- `process` completes, its samples are inside the picture and its block indices below 16. -/
structure InRange (src : Bitmap C α) : Prop where
  completes : ∃ out, process src = some out
  samples : SIZE < src.width ∨ SIZE < src.height → ∀ i < SIZE, ∀ j < SIZE,
    i * (src.width / SIZE + 1) < src.width ∧ j * (src.height / SIZE + 1) < src.height
  blocks : SIZE < src.width ∨ SIZE < src.height → ∀ x < src.width, ∀ y < src.height,
    x / (src.width / SIZE + 1) < SIZE ∧ y / (src.height / SIZE + 1) < SIZE

/-- The per-pixel mosaic stays inside a picture exactly when it is at most 16 by 16, or the quotient
and the remainder by 16 of each side add up to at least 16. -/
theorem each_pixel_inRange_iff (src : Bitmap C α) :
    InRange src ↔ src.width ≤ 16 ∧ src.height ≤ 16 ∨
      16 ≤ src.width / 16 + src.width % 16 ∧ 16 ≤ src.height / 16 + src.height % 16 := by
  constructor
  · exact fun inRange => (process_completes_iff src).1 inRange.completes
  · intro fits
    refine ⟨(process_completes_iff src).2 fits, ?_, ?_⟩
    · intro big i hi j hj
      have sampled : Sampled src.width src.height :=
        fits.resolve_left (by unfold SIZE at big; omega)
      exact ⟨(sample_lt_iff _).2 sampled.1 i hi, (sample_lt_iff _).2 sampled.2 j hj⟩
    · exact fun _ x hx y hy => ⟨block_lt hx, block_lt hy⟩

/-- A picture of 17 by 17 pixels: the sample for `i = 9` is at `x = 18`. -/
theorem each_pixel_not_inRange :
    ¬ ∀ src : Bitmap Unit Int32, 1 ≤ src.width → 1 ≤ src.height → InRange src := by
  intro claim
  have inRange := claim (createBitmapInternal 17 17 ()) (by decide) (by decide)
  obtain ⟨x, -⟩ := inRange.samples (by decide) 9 (by decide) 0 (by decide)
  exact absurd x (by decide)

/-! ### What the mosaic looks like -/

/-- The result has the size of the picture and is constant on every block, and processing it again
changes nothing. -/
theorem each_pixel_mosaic {src out : Bitmap C α} (done : process src = some out) :
    out.width = src.width ∧ out.height = src.height ∧
      (16 < src.width ∨ 16 < src.height → ∀ x < src.width, ∀ y < src.height,
        out.get x y = src.get (x - x % (src.width / 16 + 1)) (y - y % (src.height / 16 + 1))) ∧
      process out = some out := by
  by_cases small : src.width ≤ SIZE ∧ src.height ≤ SIZE
  · rw [process_small small, Option.some.injEq] at done
    subst done
    refine ⟨rfl, rfl, ?_, process_small small⟩
    intro big
    unfold SIZE at small
    omega
  have sampled : Sampled src.width src.height :=
    ((process_completes_iff src).1 ⟨out, done⟩).resolve_left small
  obtain ⟨out₁, done₁, config, width, height, pixels⟩ := process_sampled small sampled
  obtain rfl : out = out₁ := Option.some.inj (done.symm.trans done₁)
  have big : ¬ (out.width ≤ SIZE ∧ out.height ≤ SIZE) := by rwa [width, height]
  have sampled' : Sampled out.width out.height := by rwa [width, height]
  obtain ⟨out₂, done₂, config₂, width₂, height₂, pixels₂⟩ := process_sampled big sampled'
  refine ⟨width, height, fun _ => pixels, ?_⟩
  have same : out₂ = out := by
    apply Bitmap.ext_get config₂ width₂ height₂
    intro x hx y hy
    rw [width₂] at hx
    rw [height₂] at hy
    rw [pixels₂ x hx y hy]
    rw [width] at hx ⊢
    rw [height] at hy ⊢
    -- the first pixel of a block is the first pixel of its own block
    have first (x m : ℕ) : (x - x % m) % m = 0 := by
      rw [← sample_of_block, Nat.mul_mod_left]
    rw [pixels _ (by omega) _ (by omega), pixels x hx y hy, first, first, Nat.sub_zero,
      Nat.sub_zero]
  rw [done₂, same]

/-- A picture of 256 by 256 pixels, each its own number. -/
theorem each_pixel_mosaic_square :
    ∃ out,
      process ({ Grid.ofFn 256 256 fun x y => x + 256 * y with config := () } : Bitmap Unit ℕ) =
      some out ∧ out.width = 256 ∧ process out = some out := by
  obtain ⟨out, done⟩ := (process_completes_iff
    ({ Grid.ofFn 256 256 fun x y => x + 256 * y with config := () } : Bitmap Unit ℕ)).2
      (Or.inr ⟨by decide, by decide⟩)
  obtain ⟨width, -, -, again⟩ := each_pixel_mosaic done
  exact ⟨out, done, width, again⟩

end CodeNotes.Fresco
