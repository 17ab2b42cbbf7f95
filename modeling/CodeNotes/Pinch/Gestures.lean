import Mathlib.Analysis.Real.Sqrt
import CodeNotes.Pinch.Touch

/-!
# Streams of touches

A touch stream is well formed when the number of fingers each event reports fits the events before
it (`fingers`).  Zooming starts with two fingers and ends with the next finger that leaves, so that
`spacing` and `midPoint` never miss a finger (`pinch_reads_present_fingers`); a cancelled gesture
leaves the mode at `ZOOM`, but the next event is the first finger of a new one.  The distance kept
for zooming exceeds 5 pixels as long as no further finger lands while the first two are close
(`zoom_factor_positive`): a landing finger replaces `oldDist` before the guard is checked.
-/

namespace CodeNotes.Pinch

open Run

/-! ### Well-formed streams -/

/-- The number of fingers down after a touch, if it may come after `down` of them. -/
def fingers {F : Type} (down : ℕ) (touch : Touch F) : Option ℕ :=
  let count := touch.event.getPointerCount
  match touch.event.action with
  | .ACTION_DOWN => if down = 0 ∧ count = 1 then some 1 else none
  | .ACTION_MOVE => if 1 ≤ down ∧ count = down then some down else none
  | .ACTION_POINTER_DOWN => if 1 ≤ down ∧ count = down + 1 then some (down + 1) else none
  | .ACTION_POINTER_UP => if 2 ≤ down ∧ count = down then some (down - 1) else none
  | .ACTION_UP => if down = 1 ∧ count = 1 then some 0 else none
  | .ACTION_CANCEL => if 1 ≤ down ∧ count = down then some 0 else none

/-- The fingers an event reports, by its place in the stream. -/
theorem fingers_eq_some {F : Type} {down down' : ℕ} {touch : Touch F}
    (fits : fingers down touch = some down') :
    1 ≤ touch.event.getPointerCount ∧
    (touch.event.action = .ACTION_POINTER_DOWN → 2 ≤ touch.event.getPointerCount ∧ down' ≠ 1) ∧
    (touch.event.action = .ACTION_MOVE → touch.event.getPointerCount = down ∧ down' = down) ∧
    (touch.event.action = .ACTION_CANCEL → down' = 0) := by
  unfold fingers at fits
  cases action : touch.event.action <;> simp only [action] at fits <;> split_ifs at fits <;>
    cases fits <;> simp <;> omega

/-! ### Reading fingers -/

theorem MotionEvent.exists_get {F : Type} {event : MotionEvent F} {k : ℕ}
    (hk : k < event.getPointerCount) :
    (∃ x, event.getX k = some x) ∧ ∃ y, event.getY k = some y := by
  have found := List.getElem?_eq_getElem (l := event.pointers) hk
  exact ⟨⟨_, by rw [getX, found]; rfl⟩, ⟨_, by rw [getY, found]; rfl⟩⟩

section Reading

variable {F : Type} [Add F] [Mul F] {event : MotionEvent F} (two : 2 ≤ event.getPointerCount)
include two

theorem exists_spacing [Sub F] (sqrt : F → F) : ∃ d, spacing sqrt event = some d := by
  obtain ⟨⟨x₀, hx₀⟩, y₀, hy₀⟩ := event.exists_get (k := 0) (by omega)
  obtain ⟨⟨x₁, hx₁⟩, y₁, hy₁⟩ := event.exists_get (k := 1) two
  simp [spacing, hx₀, hy₀, hx₁, hy₁]

omit [Mul F] in
theorem exists_midPoint [OfNat F 2] [Div F] : ∃ mid, midPoint event = some mid := by
  obtain ⟨⟨x₀, hx₀⟩, y₀, hy₀⟩ := event.exists_get (k := 0) (by omega)
  obtain ⟨⟨x₁, hx₁⟩, y₁, hy₁⟩ := event.exists_get (k := 1) two
  simp [midPoint, hx₀, hy₀, hx₁, hy₁]

end Reading

/-! ### What one touch does -/

variable {F : Type} [OfNat F 2] [OfNat F 5] [Add F] [Sub F] [Mul F] [Div F] [LT F] [DecidableLT F]
  {sqrt : F → F}

/-- The outcomes of `onTouch`. -/
inductive Handles (sqrt : F → F) (activity : MainActivity F) (touch : Touch F) :
    MainActivity F → Prop
  | down (start : PointF F) (action : touch.event.action = .ACTION_DOWN) :
      Handles sqrt activity touch
        { activity with savedMatrix := activity.matrix, start, mode := .DRAG }
  | lifted (action : touch.event.action = .ACTION_UP ∨ touch.event.action = .ACTION_POINTER_UP) :
      Handles sqrt activity touch { activity with mode := .NONE }
  | close (oldDist : F) (action : touch.event.action = .ACTION_POINTER_DOWN)
      (measured : spacing sqrt touch.event = some oldDist) (near : ¬ 5 < oldDist) :
      Handles sqrt activity touch { activity.measure touch.event with oldDist }
  | apart (oldDist : F) (mid : PointF F) (action : touch.event.action = .ACTION_POINTER_DOWN)
      (measured : spacing sqrt touch.event = some oldDist) (far : 5 < oldDist) :
      Handles sqrt activity touch { (activity.measure touch.event).measure touch.event with
        oldDist, savedMatrix := activity.matrix, mid, mode := .ZOOM }
  | dragged (matrix : Matrix F) (action : touch.event.action = .ACTION_MOVE)
      (mode : activity.mode = .DRAG)
      (moved : matrix.scaleX = activity.savedMatrix.scaleX ∧
        matrix.scaleY = activity.savedMatrix.scaleY) :
      Handles sqrt activity touch { activity with matrix }
  | pinched (newDist : F) (action : touch.event.action = .ACTION_MOVE)
      (mode : activity.mode = .ZOOM) (measured : spacing sqrt touch.event = some newDist)
      (near : ¬ 5 < newDist) : Handles sqrt activity touch (activity.measure touch.event)
  | zoomed (newDist : F) (action : touch.event.action = .ACTION_MOVE)
      (mode : activity.mode = .ZOOM) (measured : spacing sqrt touch.event = some newDist)
      (far : 5 < newDist) :
      Handles sqrt activity touch { activity.measure touch.event with
        matrix := activity.savedMatrix.postScale (newDist / activity.oldDist)
          (newDist / activity.oldDist) activity.mid.x activity.mid.y }
  | ignored (action : touch.event.action = .ACTION_MOVE ∧ activity.mode = .NONE ∨
      touch.event.action = .ACTION_CANCEL) : Handles sqrt activity touch activity

theorem handles_of_onTouch {activity activity' : MainActivity F} {touch : Touch F}
    (touched : activity.onTouch sqrt touch = some activity') :
    Handles sqrt activity touch activity' := by
  cases action : touch.event.action with
  | ACTION_DOWN =>
    simp only [MainActivity.onTouch, action, Option.bind_eq_bind, Option.bind_eq_some_iff,
      Option.pure_def, Option.some.injEq] at touched
    obtain ⟨x, -, y, -, rfl⟩ := touched
    exact .down _ action
  | ACTION_UP =>
    simp only [MainActivity.onTouch, action, Option.some.injEq] at touched
    subst touched
    exact .lifted (Or.inl action)
  | ACTION_POINTER_UP =>
    simp only [MainActivity.onTouch, action, Option.some.injEq] at touched
    subst touched
    exact .lifted (Or.inr action)
  | ACTION_POINTER_DOWN =>
    simp only [MainActivity.onTouch, action] at touched
    obtain ⟨oldDist, measured, rest⟩ := Option.bind_eq_some_iff.1 touched
    split_ifs at rest with far
    · obtain ⟨mid, -, rest⟩ := Option.bind_eq_some_iff.1 rest
      cases rest
      exact .apart oldDist mid action measured far
    · cases rest
      exact .close oldDist action measured far
  | ACTION_MOVE =>
    cases mode : activity.mode with
    | DRAG =>
      simp only [MainActivity.onTouch, action, mode] at touched
      split_ifs at touched with left
      · simp only [Option.bind_eq_bind, Option.bind_eq_some_iff, Option.pure_def,
          Option.some.injEq] at touched
        obtain ⟨x, -, y, -, rfl⟩ := touched
        rw [← mode]
        exact .dragged (activity.savedMatrix.postTranslate _ _) action mode ⟨rfl, rfl⟩
      · cases touched
        rw [← mode]
        exact .dragged _ action mode ⟨rfl, rfl⟩
    | ZOOM =>
      simp only [MainActivity.onTouch, action, mode] at touched
      obtain ⟨newDist, measured, rest⟩ := Option.bind_eq_some_iff.1 touched
      split_ifs at rest with far
      · cases rest
        exact .zoomed newDist action mode measured far
      · cases rest
        exact .pinched newDist action mode measured far
    | NONE =>
      simp only [MainActivity.onTouch, action, mode, Option.some.injEq] at touched
      subst touched
      exact .ignored (Or.inl ⟨action, mode⟩)
  | ACTION_CANCEL =>
    simp only [MainActivity.onTouch, action, Option.some.injEq] at touched
    subst touched
    exact .ignored (Or.inr action)

/-- `onTouch` completes on an event with a finger, and with two fingers where it measures. -/
theorem exists_onTouch {activity : MainActivity F} {touch : Touch F}
    (one : 1 ≤ touch.event.getPointerCount)
    (two : touch.event.action = .ACTION_POINTER_DOWN ∨
      touch.event.action = .ACTION_MOVE ∧ activity.mode = .ZOOM →
      2 ≤ touch.event.getPointerCount) :
    ∃ activity', activity.onTouch sqrt touch = some activity' := by
  obtain ⟨⟨x, hx⟩, y, hy⟩ := touch.event.exists_get (k := 0) one
  cases action : touch.event.action with
  | ACTION_DOWN => simp [MainActivity.onTouch, action, hx, hy]
  | ACTION_UP | ACTION_POINTER_UP | ACTION_CANCEL => simp [MainActivity.onTouch, action]
  | ACTION_POINTER_DOWN =>
    obtain ⟨d, measured⟩ := exists_spacing (two (Or.inl action)) sqrt
    obtain ⟨mid, found⟩ := exists_midPoint (two (Or.inl action))
    by_cases far : 5 < d <;> simp [MainActivity.onTouch, action, measured, found, far]
  | ACTION_MOVE =>
    cases mode : activity.mode with
    | DRAG => by_cases left : -392 ≤ touch.left <;>
        simp [MainActivity.onTouch, action, mode, hx, hy, left]
    | ZOOM =>
      obtain ⟨d, measured⟩ := exists_spacing (two (Or.inr ⟨action, mode⟩)) sqrt
      by_cases far : 5 < d <;> simp [MainActivity.onTouch, action, mode, measured, far]
    | NONE => simp [MainActivity.onTouch, action, mode]

/-! ### Fingers that are there -/

/-- With one finger down the activity is not zooming, and it has measured two fingers only. -/
structure Steady (down : ℕ) (activity : MainActivity F) : Prop where
  zooming : activity.mode = .ZOOM → down ≠ 1
  measured : ∀ event ∈ activity.measured, 2 ≤ event.getPointerCount

theorem steady_onTouch {down down' : ℕ} {activity : MainActivity F} {touch : Touch F}
    (steady : Steady down activity) (fits : fingers down touch = some down') :
    ∃ activity', activity.onTouch sqrt touch = some activity' ∧ Steady down' activity' := by
  obtain ⟨one, landed, moved, cancelled⟩ := fingers_eq_some fits
  have two : touch.event.action = .ACTION_POINTER_DOWN ∨
      touch.event.action = .ACTION_MOVE ∧ activity.mode = .ZOOM →
      2 ≤ touch.event.getPointerCount := by
    rintro (action | ⟨action, mode⟩)
    · exact (landed action).1
    · have several := steady.zooming mode
      have count := (moved action).1
      omega
  obtain ⟨activity', touched⟩ : ∃ activity', activity.onTouch sqrt touch = some activity' :=
    exists_onTouch one two
  refine ⟨activity', touched, ?_⟩
  have measured (twice : touch.event.action = .ACTION_POINTER_DOWN ∨
      touch.event.action = .ACTION_MOVE ∧ activity.mode = .ZOOM) :
      ∀ event ∈ (activity.measure touch.event).measured, 2 ≤ event.getPointerCount := by
    intro event mem
    rcases List.mem_append.1 mem with mem | mem
    · exact steady.measured event mem
    · rw [List.mem_singleton.1 mem]
      exact two twice
  cases handles_of_onTouch touched with
  | down start action => exact ⟨by simp, steady.measured⟩
  | lifted action => exact ⟨by simp, steady.measured⟩
  | close oldDist action => exact ⟨fun _ => (landed action).2, measured (Or.inl action)⟩
  | apart oldDist mid action =>
    refine ⟨fun _ => (landed action).2, ?_⟩
    intro event mem
    rcases List.mem_append.1 mem with mem | mem
    · exact measured (Or.inl action) event mem
    · rw [List.mem_singleton.1 mem]
      exact two (Or.inl action)
  | dragged matrix action mode => exact ⟨by simp [mode], steady.measured⟩
  | pinched newDist action mode =>
    exact ⟨(moved action).2 ▸ steady.zooming, measured (Or.inr ⟨action, mode⟩)⟩
  | zoomed newDist action mode =>
    exact ⟨(moved action).2 ▸ steady.zooming, measured (Or.inr ⟨action, mode⟩)⟩
  | ignored action =>
    rcases action with ⟨-, mode⟩ | action
    · exact ⟨by simp [mode], steady.measured⟩
    · refine ⟨fun _ => ?_, steady.measured⟩
      rw [cancelled action]
      decide

/-- On every well-formed stream `onTouch` reads only fingers that are there: it never fails, and
`spacing` and `midPoint` are called on events with at least two fingers only. -/
theorem pinch_reads_present_fingers [Zero F] [One F] (sqrt : F → F) {touches : List (Touch F)}
    {down : ℕ} (wellFormed : run fingers 0 touches = some down) :
    ∃ activity, run (MainActivity.onTouch sqrt) .init touches = some activity ∧
      ∀ event ∈ activity.measured, 2 ≤ event.getPointerCount := by
  have initial : Steady 0 (MainActivity.init : MainActivity F) :=
    ⟨by simp, by simp [MainActivity.init]⟩
  have simulates (down : ℕ) (activity : MainActivity F) (touch : Touch F) (down' : ℕ)
      (steady : Steady down activity) (fits : fingers down touch = some down') :
      ∃ activity', activity.onTouch sqrt touch = some activity' ∧ Steady down' activity' :=
    steady_onTouch steady fits
  obtain ⟨activity, ran, steady⟩ := run_simulates simulates initial wellFormed
  exact ⟨activity, ran, steady.measured⟩

/-- Two fingers come down, the gesture is cancelled while zooming, and a finger starts a new one. -/
def cancelledPinch : List (Touch ℤ) :=
  [⟨0, .ACTION_DOWN, [⟨0, 0⟩]⟩, ⟨0, .ACTION_POINTER_DOWN, [⟨0, 0⟩, ⟨9, 0⟩]⟩,
    ⟨0, .ACTION_CANCEL, [⟨0, 0⟩, ⟨9, 0⟩]⟩, ⟨0, .ACTION_DOWN, [⟨0, 0⟩]⟩, ⟨0, .ACTION_MOVE, [⟨3, 0⟩]⟩]

theorem pinch_reads_present_fingers_cancelled :
    run fingers 0 cancelledPinch = some 1 ∧
      ∃ activity, run (MainActivity.onTouch id) .init cancelledPinch = some activity ∧
        ∀ event ∈ activity.measured, 2 ≤ event.getPointerCount :=
  ⟨rfl, pinch_reads_present_fingers id rfl⟩

/-! ### Distances -/

/-- A finger that lands while zooming finds the first two more than 5 pixels apart. -/
def Apart (sqrt : F → F) (activity : MainActivity F) (touch : Touch F) : Prop :=
  touch.event.action = .ACTION_POINTER_DOWN → activity.mode = .ZOOM →
    (spacing sqrt touch.event).all (5 < ·) = true

instance (sqrt : F → F) (activity : MainActivity F) (touch : Touch F) :
    Decidable (Apart sqrt activity touch) :=
  inferInstanceAs (Decidable (_ → _ → _ = true))

/-- Where `Apart` fails the activity goes on zooming with a distance of at most 5. -/
theorem zooming_of_not_apart {activity activity' : MainActivity F} {touch : Touch F}
    (together : ¬ Apart sqrt activity touch)
    (touched : activity.onTouch sqrt touch = some activity') :
    activity'.mode = .ZOOM ∧ ¬ 5 < activity'.oldDist := by
  unfold Apart at together
  push Not at together
  obtain ⟨action, mode, short⟩ := together
  cases handles_of_onTouch touched with
  | close oldDist _ measured near => exact ⟨mode, near⟩
  | apart oldDist mid _ measured far =>
    rw [measured] at short
    exact absurd (decide_eq_true far) short
  | down start down => simp [action] at down
  | lifted up => simp [action] at up
  | dragged matrix move => simp [action] at move
  | pinched newDist move => simp [action] at move
  | zoomed newDist move => simp [action] at move
  | ignored other => simp [action] at other

/-- While zooming the kept distance exceeds 5, and the image is never flipped or collapsed. -/
structure Sound (activity : MainActivity ℝ) : Prop where
  zooming : activity.mode = .ZOOM → 5 < activity.oldDist
  upright : 0 < activity.matrix.scaleX ∧ 0 < activity.matrix.scaleY
  saved : 0 < activity.savedMatrix.scaleX ∧ 0 < activity.savedMatrix.scaleY

theorem sound_init : Sound .init :=
  ⟨by simp [MainActivity.init], by simp [MainActivity.init, Matrix.identity],
    by simp [MainActivity.init, Matrix.identity]⟩

theorem sound_onTouch {sqrt : ℝ → ℝ} {activity activity' : MainActivity ℝ} {touch : Touch ℝ}
    (sound : Sound activity) (apart : Apart sqrt activity touch)
    (touched : activity.onTouch sqrt touch = some activity') : Sound activity' := by
  obtain ⟨zooming, upright, saved⟩ := sound
  cases handles_of_onTouch touched with
  | down start action => exact ⟨by simp, upright, upright⟩
  | lifted action => exact ⟨by simp, upright, saved⟩
  | close oldDist action measured near =>
    refine ⟨fun mode => ?_, upright, saved⟩
    -- the new distance is within the guard, so `Apart` excludes that the activity was zooming
    have far := apart action mode
    rw [measured] at far
    exact of_decide_eq_true far
  | apart oldDist mid action measured far => exact ⟨fun _ => far, upright, upright⟩
  | dragged matrix action mode moved =>
    exact ⟨zooming, by rw [moved.1, moved.2]; exact saved, saved⟩
  | pinched newDist action mode measured near => exact ⟨zooming, upright, saved⟩
  | zoomed newDist action mode measured far =>
    have positive : 0 < newDist / activity.oldDist := by
      apply div_pos
      · linarith
      · linarith [zooming mode]
    exact ⟨zooming, ⟨mul_pos positive saved.1, mul_pos positive saved.2⟩, saved⟩
  | ignored action => exact ⟨zooming, upright, saved⟩

theorem sound_run {touches : List (Touch ℝ)} {activity : MainActivity ℝ}
    (ran : run (restrict (Apart Real.sqrt) (MainActivity.onTouch Real.sqrt)) .init touches =
      some activity) : Sound activity := by
  apply run_invariant _ sound_init ran
  intro _ _ _ sound stepped
  obtain ⟨apart, touched⟩ := restrict_eq_some.1 stepped
  exact sound_onTouch sound apart touched

/-- If no finger lands close to another while zooming, every move in `ZOOM` mode divides by more
than 5 pixels, and its factor is positive. -/
theorem zoom_factor_positive {touches : List (Touch ℝ)} {activity : MainActivity ℝ}
    (ran : run (restrict (Apart Real.sqrt) (MainActivity.onTouch Real.sqrt)) .init touches =
      some activity) :
    ∀ touch : Touch ℝ, touch.event.action = .ACTION_MOVE → activity.mode = .ZOOM →
      5 < activity.oldDist ∧
        ∀ newDist, spacing Real.sqrt touch.event = some newDist → 5 < newDist →
          0 < newDist / activity.oldDist := by
  intro touch _ mode
  have far := (sound_run ran).zooming mode
  refine ⟨far, fun newDist _ wide => ?_⟩
  apply div_pos
  · linarith
  · linarith

theorem spacing_origin {x : ℝ} (hx : 0 ≤ x) (action : Action) (others : List (PointF ℝ)) :
    spacing Real.sqrt ⟨action, ⟨0, 0⟩ :: ⟨x, 0⟩ :: others⟩ = some x := by
  show some (Real.sqrt ((0 - x) * (0 - x) + (0 - 0) * (0 - 0))) = some x
  have square : (0 - x) * (0 - x) + (0 - 0) * (0 - 0) = x * x := by ring
  rw [square, Real.sqrt_mul_self hx]

/-- Two fingers come down 10 pixels apart. -/
def twoFingers : List (Touch ℝ) :=
  [⟨0, .ACTION_DOWN, [⟨0, 0⟩]⟩, ⟨0, .ACTION_POINTER_DOWN, [⟨0, 0⟩, ⟨10, 0⟩]⟩]

theorem zoom_factor_positive_two_fingers :
    ∃ activity, run (restrict (Apart Real.sqrt) (MainActivity.onTouch Real.sqrt)) .init twoFingers =
        some activity ∧ activity.mode = .ZOOM ∧ 5 < activity.oldDist := by
  have measured := spacing_origin (x := 10) (by norm_num) .ACTION_POINTER_DOWN []
  have far : (5 : ℝ) < 10 := by norm_num
  obtain ⟨activity, ran, mode⟩ : ∃ activity,
      run (restrict (Apart Real.sqrt) (MainActivity.onTouch Real.sqrt)) .init twoFingers =
        some activity ∧ activity.mode = .ZOOM := by
    simp [run_cons, restrict, Apart, twoFingers, MainActivity.onTouch, MainActivity.init, measured,
      far, midPoint, MotionEvent.getX, MotionEvent.getY]
  exact ⟨activity, ran, mode,
    (zoom_factor_positive ran ⟨0, .ACTION_MOVE, [⟨0, 0⟩, ⟨20, 0⟩]⟩ rfl mode).1⟩

/-- The two fingers meet, and a third one lands. -/
def thirdFinger : List (Touch ℝ) :=
  twoFingers ++ [⟨0, .ACTION_MOVE, [⟨0, 0⟩, ⟨0, 0⟩]⟩,
    ⟨0, .ACTION_POINTER_DOWN, [⟨0, 0⟩, ⟨0, 0⟩, ⟨50, 50⟩]⟩]

/-- The third finger leaves the activity zooming with `oldDist` 0. -/
theorem zoom_factor_not_positive :
    ¬ ∀ (touches : List (Touch ℝ)) (down : ℕ) (activity : MainActivity ℝ),
      run fingers 0 touches = some down →
      run (MainActivity.onTouch Real.sqrt) .init touches = some activity →
      ∀ touch : Touch ℝ, fingers down touch = some down → touch.event.action = .ACTION_MOVE →
        activity.mode = .ZOOM → 5 < activity.oldDist := by
  intro claim
  have measured := spacing_origin (x := 10) (by norm_num) .ACTION_POINTER_DOWN []
  have far : (5 : ℝ) < 10 := by norm_num
  have met := spacing_origin (le_refl 0) .ACTION_MOVE []
  have landed := spacing_origin (le_refl 0) .ACTION_POINTER_DOWN [⟨50, 50⟩]
  have near : ¬ (5 : ℝ) < 0 := by norm_num
  obtain ⟨activity, ran, mode, zero⟩ : ∃ activity,
      run (MainActivity.onTouch Real.sqrt) .init thirdFinger = some activity ∧
        activity.mode = .ZOOM ∧ activity.oldDist = 0 := by
    simp [run_cons, thirdFinger, twoFingers, MainActivity.onTouch, MainActivity.init, measured,
      far, met, landed, near, MainActivity.measure, midPoint, MotionEvent.getX, MotionEvent.getY]
  have wide := claim thirdFinger 3 activity rfl ran
    ⟨0, .ACTION_MOVE, [⟨0, 0⟩, ⟨20, 0⟩, ⟨50, 50⟩]⟩ rfl rfl mode
  rw [zero] at wide
  exact near wide

/-- In such a run the image keeps a positive scale. -/
theorem image_upright {touches : List (Touch ℝ)} {activity : MainActivity ℝ}
    (ran : run (restrict (Apart Real.sqrt) (MainActivity.onTouch Real.sqrt)) .init touches =
      some activity) : 0 < activity.matrix.scaleX ∧ 0 < activity.matrix.scaleY :=
  (sound_run ran).upright

end CodeNotes.Pinch
