import CodeNotes.Lib.Grid

/-!
# The mosaic post-processors

`process` of `EachPixelMosaicProcessor` and `ScaledMosaicProcessor`.  Both take one sample for each
cell of a 16 by 16 mosaic; the first paints the samples over the picture pixel by pixel, the second
stretches a 16 by 16 bitmap with the library's `createScaledBitmap`.  Reading or writing outside a
bitmap or an array raises an exception (`none`).  Widths and heights are Kotlin `Int`s; the largest
product, `15 * (width / 16 + 1)`, fits as well, so that natural numbers do.
-/

namespace CodeNotes.Fresco

/-- A bitmap with pixels in `α` and a configuration in `C`. -/
structure Bitmap (C α : Type) extends Grid α where
  config : C

def SIZE : ℕ := 16

variable {C α : Type}

theorem Bitmap.ext_get {b b' : Bitmap C α} (config : b.config = b'.config)
    (width : b.width = b'.width) (height : b.height = b'.height)
    (same : ∀ x < b.width, ∀ y < b.height, b.get x y = b'.get x y) : b = b' := by
  have grid := Grid.ext_get width height same
  cases b
  cases b'
  simp only at grid config
  rw [grid, config]

/-- `createBitmapInternal(width, height, config)`: a bitmap of zero pixels. -/
def createBitmapInternal [Zero α] (width height : ℕ) (config : C) : Bitmap C α :=
  { Grid.ofFn width height fun _ _ => 0 with config }

/-- The nested loop that writes the pixels of a bitmap. -/
def Bitmap.paint (bitmap : Bitmap C α) (w h : ℕ) (value : ℕ → ℕ → Option α) :
    Option (Bitmap C α) := do
  return { ← CodeNotes.paint w h value bitmap.toGrid with config := bitmap.config }

/-- Painting inside the bitmap changes the pixels of the rectangle. -/
theorem Bitmap.paint_eq_some {bitmap : Bitmap C α} {w h : ℕ} {value : ℕ → ℕ → Option α}
    (hw : w ≤ bitmap.width) (hh : h ≤ bitmap.height)
    (values : ∀ i < w, ∀ j < h, ∃ a, value i j = some a) :
    ∃ bitmap', bitmap.paint w h value = some bitmap' ∧ bitmap'.config = bitmap.config ∧
      Painted value bitmap.toGrid (fun x y => x < w ∧ y < h) bitmap'.toGrid := by
  obtain ⟨grid, painted, holds⟩ := CodeNotes.paint_eq_some hw hh values
  refine ⟨{ grid with config := bitmap.config }, ?_, rfl, holds⟩
  rw [Bitmap.paint, painted]
  rfl

/-- `createBitmap(sourceBitmap)` returns a copy. -/
def createBitmap (sourceBitmap : Bitmap C α) : Bitmap C α := sourceBitmap

namespace EachPixelMosaicProcessor

def process [Zero α] (sourceBitmap : Bitmap C α) : Option (Bitmap C α) :=
  let sourceWidth := sourceBitmap.width
  let sourceHeight := sourceBitmap.height
  if sourceWidth ≤ SIZE ∧ sourceHeight ≤ SIZE then
    some (createBitmap sourceBitmap)
  else do
    let mosaicWidth := sourceWidth / SIZE + 1
    let mosaicHeight := sourceHeight / SIZE + 1
    let array ← paint SIZE SIZE (fun i j => sourceBitmap.get (i * mosaicWidth) (j * mosaicHeight))
      (Grid.ofFn SIZE SIZE fun _ _ => 0)
    let mosaicBitmap := createBitmapInternal sourceWidth sourceHeight sourceBitmap.config
    mosaicBitmap.paint sourceWidth sourceHeight fun i j =>
      array.get (i / mosaicWidth) (j / mosaicHeight)

end EachPixelMosaicProcessor

namespace ScaledMosaicProcessor

/-- `createScaledBitmap` belongs to the bitmap factory. -/
def process [Zero α] (createScaledBitmap : Bitmap C α → ℕ → ℕ → Bool → Bitmap C α)
    (sourceBitmap : Bitmap C α) : Option (Bitmap C α) :=
  let sourceWidth := sourceBitmap.width
  let sourceHeight := sourceBitmap.height
  if sourceWidth ≤ SIZE ∧ sourceHeight ≤ SIZE then
    some (createBitmap sourceBitmap)
  else do
    let mosaicWidth := sourceWidth / SIZE
    let mosaicHeight := sourceHeight / SIZE
    let mosaicBitmap ← (createBitmapInternal SIZE SIZE sourceBitmap.config).paint SIZE SIZE
      fun i j => sourceBitmap.get (i * mosaicWidth) (j * mosaicHeight)
    return createScaledBitmap mosaicBitmap sourceWidth sourceHeight true

end ScaledMosaicProcessor

end CodeNotes.Fresco
