import Mathlib.Tactic

/-!
# The flipper activity

`FlipperActivity` of `gesture_detector` turns the pages of a `ViewFlipper` by flings, and scrolls
the page while a long press has switched it to drag mode.  Kotlin's `Float` is a type `F` with the
operations the callbacks use (`FloatOps`), about which nothing is assumed: `NaN` has a place in it.

The page index is the number of flings forward less those backward, modulo the number of views; the
flipper shows that page; outside drag mode it is not scrolled; and all views have the text of the
mode (`flipper_consistent`).
-/

namespace CodeNotes.Gesture

/-! ### The activity -/

structure FloatOps (F : Type) where
  sub : F → F → F
  abs : F → F
  gt : F → F → Bool
  ofInt : Int32 → F
  toInt : F → Int32

inductive Animation where
  | animleftin
  | animleftout
  | animrightin
  | animrightout
  | animupin
  | animupout
  | animdownin
  | animdownout
  deriving DecidableEq

/-- `android.widget.ViewFlipper`, as far as the activity uses it. -/
structure ViewFlipper where
  childCount : ℕ
  displayedChild : ℤ
  scrollX : Int32
  scrollY : Int32
  inAnimation : Animation
  outAnimation : Animation

namespace ViewFlipper

/-- An index outside the children wraps to the other end. -/
def setDisplayedChild (flipper : ViewFlipper) (whichChild : ℤ) : ViewFlipper :=
  { flipper with
    displayedChild :=
      if whichChild ≥ flipper.childCount then 0
      else if whichChild < 0 then flipper.childCount - 1
      else whichChild }

/-- A child added at or before the displayed one moves it on. -/
def addView (flipper : ViewFlipper) (index : ℕ) : ViewFlipper :=
  let flipper := { flipper with childCount := flipper.childCount + 1 }
  if flipper.displayedChild ≥ (index : ℤ) then
    flipper.setDisplayedChild (flipper.displayedChild + 1)
  else flipper

def scrollTo (flipper : ViewFlipper) (x y : Int32) : ViewFlipper :=
  { flipper with scrollX := x, scrollY := y }

def scrollBy (flipper : ViewFlipper) (x y : Int32) : ViewFlipper :=
  flipper.scrollTo (flipper.scrollX + x) (flipper.scrollY + y)

end ViewFlipper

structure TextView (C : Type) where
  background : C
  text : String

structure FlipperActivity (C : Type) where
  flipper : ViewFlipper
  views : List (TextView C)
  isDragMode : Bool
  currentview : ℤ

structure PointF (F : Type) where
  x : F
  y : F

def SWIPE_MIN_DISTANCE : Int32 := 100

def SWIPE_MIN_VELOCITY : Int32 := 100

/-- The strings `app_info_drag` and `app_info_flip`. -/
def modeText (isDragMode : Bool) : String := if isDragMode then "app_info_drag" else "app_info_flip"

namespace FlipperActivity

variable {C F : Type}

def setViewText (activity : FlipperActivity C) : FlipperActivity C :=
  { activity with
    views := activity.views.map fun view => { view with text := modeText activity.isDragMode } }

def prepareViews (colors : List C) : List (TextView C) :=
  colors.map fun color => { background := color, text := "" }

def addViews (flipper : ViewFlipper) (views : List (TextView C)) : ViewFlipper :=
  (List.range views.length).foldl ViewFlipper.addView flipper

def onCreate (colors : List C) : FlipperActivity C :=
  let flipper : ViewFlipper :=
    { childCount := 0, displayedChild := 0, scrollX := 0, scrollY := 0
      inAnimation := .animleftin, outAnimation := .animleftout }
  let views := prepareViews colors
  setViewText { flipper := addViews flipper views, views, isDragMode := false, currentview := 0 }

/-- `--currentview`, wrapped. -/
def previous (activity : FlipperActivity C) : ℤ :=
  if activity.currentview - 1 < 0 then activity.views.length - 1 else activity.currentview - 1

/-- `++currentview`, wrapped. -/
def next (activity : FlipperActivity C) : ℤ :=
  if activity.currentview + 1 ≥ activity.views.length then 0 else activity.currentview + 1

/-- What every accepted fling does with the new page. -/
def flipTo (activity : FlipperActivity C) (currentview : ℤ) (inAnimation outAnimation : Animation) :
    FlipperActivity C :=
  let flipper := { activity.flipper with inAnimation, outAnimation }
  { activity with currentview, flipper := (flipper.scrollTo 0 0).setDisplayedChild currentview }

def onFling (ops : FloatOps F) (activity : FlipperActivity C) (event1 event2 : PointF F)
    (velocityX velocityY : F) : FlipperActivity C :=
  if activity.isDragMode then activity
  else
    let xdiff := ops.abs (ops.sub event1.x event2.x)
    let ydiff := ops.abs (ops.sub event1.y event2.y)
    let xvelocity := ops.abs velocityX
    let yvelocity := ops.abs velocityY
    if ops.gt xvelocity (ops.ofInt SWIPE_MIN_VELOCITY) &&
        ops.gt xdiff (ops.ofInt SWIPE_MIN_DISTANCE) then
      if ops.gt event1.x event2.x then activity.flipTo activity.previous .animleftin .animleftout
      else activity.flipTo activity.next .animrightin .animrightout
    else if ops.gt yvelocity (ops.ofInt SWIPE_MIN_VELOCITY) &&
        ops.gt ydiff (ops.ofInt SWIPE_MIN_DISTANCE) then
      if ops.gt event1.y event2.y then activity.flipTo activity.previous .animupin .animupout
      else activity.flipTo activity.next .animdownin .animdownout
    else activity

def onLongPress (activity : FlipperActivity C) : FlipperActivity C :=
  setViewText { activity with
    flipper := activity.flipper.scrollTo 0 0
    isDragMode := !activity.isDragMode }

def onScroll (ops : FloatOps F) (activity : FlipperActivity C) (distanceX distanceY : F) :
    FlipperActivity C :=
  if activity.isDragMode then
    { activity with
      flipper := activity.flipper.scrollBy (ops.toInt distanceX) (ops.toInt distanceY) }
  else activity

def onDoubleTap (activity : FlipperActivity C) : FlipperActivity C :=
  { activity with flipper := activity.flipper.scrollTo 0 0 }

end FlipperActivity

/-- The callbacks of the gesture detector that do more than log. -/
inductive Callback (F : Type) where
  | onFling (event1 event2 : PointF F) (velocityX velocityY : F)
  | onLongPress
  | onScroll (distanceX distanceY : F)
  | onDoubleTap

open FlipperActivity

section Consistency

variable {C F : Type} (ops : FloatOps F)

def handle (activity : FlipperActivity C) : Callback F → FlipperActivity C
  | .onFling event1 event2 velocityX velocityY =>
    activity.onFling ops event1 event2 velocityX velocityY
  | .onLongPress => activity.onLongPress
  | .onScroll distanceX distanceY => activity.onScroll ops distanceX distanceY
  | .onDoubleTap => activity.onDoubleTap

/-! ### Flings -/

inductive Direction where
  | left
  | right
  | up
  | down
  deriving DecidableEq

def Direction.forward : Direction → Bool
  | .right | .down => true
  | .left | .up => false

def Direction.animations : Direction → Animation × Animation
  | .left => (.animleftin, .animleftout)
  | .right => (.animrightin, .animrightout)
  | .up => (.animupin, .animupout)
  | .down => (.animdownin, .animdownout)

/-- A movement along one axis that is far and fast enough. -/
def swipe (position1 position2 velocity : F) : Bool :=
  ops.gt (ops.abs velocity) (ops.ofInt SWIPE_MIN_VELOCITY) &&
    ops.gt (ops.abs (ops.sub position1 position2)) (ops.ofInt SWIPE_MIN_DISTANCE)

/-- The direction of a movement, horizontal if it is a swipe along that axis. -/
def classify (event1 event2 : PointF F) (velocityX velocityY : F) : Option Direction :=
  if swipe ops event1.x event2.x velocityX then
    some (if ops.gt event1.x event2.x then .left else .right)
  else if swipe ops event1.y event2.y velocityY then
    some (if ops.gt event1.y event2.y then .up else .down)
  else none

/-- The direction of a callback that is a fling and accepted. -/
def fling (activity : FlipperActivity C) : Callback F → Option Direction
  | .onFling event1 event2 velocityX velocityY =>
    if activity.isDragMode then none else classify ops event1 event2 velocityX velocityY
  | _ => none

/-- The accepted flings among the callbacks, in order. -/
def flings (activity : FlipperActivity C) : List (Callback F) → List Direction
  | [] => []
  | callback :: callbacks =>
    (fling ops activity callback).toList ++ flings (handle ops activity callback) callbacks

/-- The pages turned forward less those turned backward. -/
def turns (directions : List Direction) : ℤ :=
  directions.countP Direction.forward - directions.countP fun direction => !direction.forward

theorem turns_append (directions directions' : List Direction) :
    turns (directions ++ directions') = turns directions + turns directions' := by
  unfold turns
  rw [List.countP_append, List.countP_append]
  push_cast
  ring

theorem turns_singleton (direction : Direction) :
    turns [direction] = if direction.forward then 1 else -1 := by
  cases direction <;> rfl

/-- The block of `onFling` for a direction. -/
def turnTo (activity : FlipperActivity C) (direction : Direction) : FlipperActivity C :=
  activity.flipTo (if direction.forward then activity.next else activity.previous)
    direction.animations.1 direction.animations.2

theorem onFling_eq (activity : FlipperActivity C) (event1 event2 : PointF F)
    (velocityX velocityY : F) :
    activity.onFling ops event1 event2 velocityX velocityY =
      match fling ops activity (.onFling event1 event2 velocityX velocityY) with
      | some direction => turnTo activity direction
      | none => activity := by
  simp only [onFling, fling, classify]
  by_cases drag : activity.isDragMode
  · rw [if_pos drag, if_pos drag]
  rw [if_neg drag, if_neg drag]
  by_cases horizontal : swipe ops event1.x event2.x velocityX
  · rw [if_pos horizontal]
    refine (if_pos horizontal).trans ?_
    split_ifs <;> rfl
  rw [if_neg horizontal]
  refine (if_neg horizontal).trans ?_
  by_cases vertical : swipe ops event1.y event2.y velocityY
  · rw [if_pos vertical]
    refine (if_pos vertical).trans ?_
    split_ifs <;> rfl
  · rw [if_neg vertical]
    exact if_neg vertical

/-! ### The invariant -/

structure Consistent (n : ℕ) (activity : FlipperActivity C) : Prop where
  childCount : activity.flipper.childCount = n
  size : activity.views.length = n
  nonneg : 0 ≤ activity.currentview
  lt : activity.currentview < n
  displayed : activity.flipper.displayedChild = activity.currentview
  unscrolled : activity.isDragMode = false →
    activity.flipper.scrollX = 0 ∧ activity.flipper.scrollY = 0
  texts : ∀ view ∈ activity.views, view.text = modeText activity.isDragMode
  animated : ∃ direction : Direction,
    (activity.flipper.inAnimation, activity.flipper.outAnimation) = direction.animations

/-- Adding the children in order leaves the first one displayed. -/
theorem foldl_addView (flipper : ViewFlipper) (empty : flipper.childCount = 0)
    (first : flipper.displayedChild = 0) (k : ℕ) :
    (List.range k).foldl ViewFlipper.addView flipper = { flipper with childCount := k } := by
  induction k with
  | zero =>
    show flipper = _
    rw [← empty]
  | succ k ih =>
    rw [List.range_succ, List.foldl_append, ih]
    -- only the first child is added at the displayed index, and index 1 then wraps back to it
    rcases Nat.eq_zero_or_pos k with rfl | later
    · simp [ViewFlipper.addView, ViewFlipper.setDisplayedChild, first]
    · have before : ¬ flipper.displayedChild ≥ (k : ℤ) := by omega
      exact if_neg before

theorem setViewText_texts (activity : FlipperActivity C) :
    ∀ view ∈ activity.setViewText.views, view.text = modeText activity.isDragMode := by
  intro view member
  obtain ⟨old, -, rfl⟩ := List.mem_map.mp member
  rfl

theorem onCreate_consistent {colors : List C} (nonempty : colors ≠ []) :
    Consistent colors.length (onCreate colors) := by
  have flipper : (onCreate colors).flipper =
      { childCount := colors.length, displayedChild := 0, scrollX := 0, scrollY := 0
        inAnimation := .animleftin, outAnimation := .animleftout } := by
    have size : (prepareViews colors).length = colors.length := List.length_map _
    show addViews _ (prepareViews colors) = _
    rw [addViews, size]
    exact foldl_addView _ rfl rfl colors.length
  refine ⟨?_, ?_, le_rfl, ?_, ?_, fun _ => ?_, setViewText_texts _, .left, ?_⟩
  · rw [flipper]
  · simp [onCreate, setViewText, prepareViews]
  · show (0 : ℤ) < colors.length
    exact_mod_cast List.length_pos_iff.mpr nonempty
  · rw [flipper]; rfl
  · rw [flipper]; exact ⟨rfl, rfl⟩
  · rw [flipper]; rfl

section Step

variable {n : ℕ} {activity : FlipperActivity C}

theorem Consistent.still (consistent : Consistent n activity) :
    activity.currentview = (activity.currentview + turns []) % n := by
  rw [show turns [] = 0 from rfl, add_zero, Int.emod_eq_of_lt consistent.nonneg consistent.lt]

theorem Consistent.next (consistent : Consistent n activity) :
    activity.next = (activity.currentview + 1) % n := by
  have nonneg := consistent.nonneg
  have lt := consistent.lt
  unfold FlipperActivity.next
  rw [consistent.size]
  split_ifs with last
  · have wraps : activity.currentview + 1 = n := by omega
    rw [wraps, Int.emod_self]
  · rw [Int.emod_eq_of_lt (by omega) (by omega)]

theorem Consistent.previous (consistent : Consistent n activity) :
    activity.previous = (activity.currentview - 1) % n := by
  have nonneg := consistent.nonneg
  have lt := consistent.lt
  unfold FlipperActivity.previous
  rw [consistent.size]
  split_ifs with first
  · have wraps : activity.currentview - 1 + n = n - 1 := by omega
    rw [← Int.add_emod_right, wraps, Int.emod_eq_of_lt (by omega) (by omega)]
  · rw [Int.emod_eq_of_lt (by omega) (by omega)]

theorem Consistent.turnTo_currentview (consistent : Consistent n activity) (direction : Direction) :
    (turnTo activity direction).currentview =
      (activity.currentview + turns [direction]) % n := by
  rw [turns_singleton]
  show (if direction.forward then activity.next else activity.previous) = _
  split_ifs
  · exact consistent.next
  · exact consistent.previous

theorem Consistent.turnTo (consistent : Consistent n activity) (direction : Direction) :
    Consistent n (turnTo activity direction) := by
  have page := consistent.turnTo_currentview direction
  have positive : (0 : ℤ) < n := lt_of_le_of_lt consistent.nonneg consistent.lt
  have nonneg : 0 ≤ (Gesture.turnTo activity direction).currentview := by
    rw [page]
    exact Int.emod_nonneg _ (by omega)
  have lt : (Gesture.turnTo activity direction).currentview < n := by
    rw [page]
    exact Int.emod_lt_of_pos _ positive
  refine ⟨consistent.childCount, consistent.size, nonneg, lt, ?_, fun _ => ⟨rfl, rfl⟩,
    consistent.texts, direction, rfl⟩
  -- the new page is a child, so `setDisplayedChild` does not wrap it again
  show (if (Gesture.turnTo activity direction).currentview ≥ activity.flipper.childCount then 0
    else if (Gesture.turnTo activity direction).currentview < 0 then
      (activity.flipper.childCount : ℤ) - 1
    else (Gesture.turnTo activity direction).currentview) = _
  rw [consistent.childCount, if_neg (by omega), if_neg (by omega)]

/-- One callback keeps the invariant and turns the page by its fling. -/
theorem Consistent.handle (consistent : Consistent n activity) (callback : Callback F) :
    Consistent n (handle ops activity callback) ∧
      (handle ops activity callback).currentview =
        (activity.currentview + turns (fling ops activity callback).toList) % n := by
  have still := consistent.still
  cases callback with
  | onFling event1 event2 velocityX velocityY =>
    rw [Gesture.handle, onFling_eq]
    cases fling ops activity (.onFling event1 event2 velocityX velocityY) with
    | none => exact ⟨consistent, still⟩
    | some direction => exact ⟨consistent.turnTo direction, consistent.turnTo_currentview direction⟩
  | onLongPress =>
    refine ⟨⟨consistent.childCount, ?_, consistent.nonneg, consistent.lt, consistent.displayed,
      fun _ => ⟨rfl, rfl⟩, setViewText_texts _, consistent.animated⟩, still⟩
    exact (List.length_map _).trans consistent.size
  | onScroll distanceX distanceY =>
    rw [Gesture.handle, FlipperActivity.onScroll]
    split_ifs with drag
    · refine ⟨⟨consistent.childCount, consistent.size, consistent.nonneg, consistent.lt,
        consistent.displayed, fun flip => ?_, consistent.texts, consistent.animated⟩, still⟩
      exact absurd (drag.symm.trans flip) (by decide)
    · exact ⟨consistent, still⟩
  | onDoubleTap =>
    exact ⟨⟨consistent.childCount, consistent.size, consistent.nonneg, consistent.lt,
      consistent.displayed, fun _ => ⟨rfl, rfl⟩, consistent.texts, consistent.animated⟩, still⟩

/-- A run of callbacks from any consistent state. -/
theorem Consistent.foldl (consistent : Consistent n activity) (callbacks : List (Callback F)) :
    Consistent n (callbacks.foldl (Gesture.handle ops) activity) ∧
      (callbacks.foldl (Gesture.handle ops) activity).currentview =
        (activity.currentview + turns (flings ops activity callbacks)) % n := by
  induction callbacks generalizing activity with
  | nil => exact ⟨consistent, consistent.still⟩
  | cons callback callbacks ih =>
    obtain ⟨kept, page⟩ := consistent.handle ops callback
    obtain ⟨kept', page'⟩ := ih kept
    refine ⟨kept', ?_⟩
    rw [List.foldl_cons, page', page, flings, turns_append, Int.emod_add_emod, add_assoc]

end Step

/-- After `onCreate` with at least one view and any callbacks, the page, the scroll offset, the mode
and the texts agree. -/
theorem flipper_consistent (colors : List C) (nonempty : colors ≠ [])
    (callbacks : List (Callback F)) :
    let activity := callbacks.foldl (handle ops) (onCreate colors)
    let accepted := flings ops (onCreate colors) callbacks
    activity.currentview =
        ((accepted.countP fun direction => direction.forward : ℤ) -
          accepted.countP fun direction => !direction.forward) % colors.length ∧
      0 ≤ activity.currentview ∧ activity.currentview < colors.length ∧
      activity.flipper.displayedChild = activity.currentview ∧
      (activity.isDragMode = false →
        activity.flipper.scrollX = 0 ∧ activity.flipper.scrollY = 0) ∧
      activity.views.length = colors.length ∧
      ∀ view ∈ activity.views, view.text = modeText activity.isDragMode := by
  obtain ⟨consistent, page⟩ := (onCreate_consistent nonempty).foldl ops callbacks
  refine ⟨?_, consistent.nonneg, consistent.lt, consistent.displayed, consistent.unscrolled,
    consistent.size, consistent.texts⟩
  rw [page, show (onCreate colors).currentview = 0 from rfl, zero_add]
  rfl

end Consistency

/-- Whole numbers as coordinates. -/
def intOps : FloatOps ℤ where
  sub := (· - ·)
  abs := fun x => |x|
  gt := fun x y => decide (x > y)
  ofInt := Int32.toInt
  toInt := Int32.ofInt

theorem flipper_consistent_left_drag :
    let activity := [.onFling ⟨300, 0⟩ ⟨0, 0⟩ (-500) 0, .onLongPress, .onScroll 5 7].foldl
      (handle intOps) (onCreate [0, 1, 2, 3])
    activity.currentview = 3 ∧ activity.flipper.displayedChild = 3 ∧
      ∀ view ∈ activity.views, view.text = "app_info_drag" := by
  obtain ⟨page, -, -, displayed, -, -, texts⟩ := flipper_consistent intOps [0, 1, 2, 3] (by decide)
    [.onFling ⟨300, 0⟩ ⟨0, 0⟩ (-500) 0, .onLongPress, .onScroll 5 7]
  have three := page.trans (by decide : _ = (3 : ℤ))
  exact ⟨three, displayed.trans three, texts⟩

end CodeNotes.Gesture
