import Mathlib.Tactic
import CodeNotes.Lib.Run

/-!
# The pinch activity

`onTouch` of the pinch demo's `MainActivity` drags the image with one finger and zooms it with two.
Kotlin's `Float` is the parameter `F`, with the operations the code uses and a square root; a finger
that an event does not have raises an exception (`none`).
-/

namespace CodeNotes.Pinch

/-- `event.action and ACTION_MASK`: the action without the index of its pointer. -/
inductive Action where
  | ACTION_DOWN
  | ACTION_UP
  | ACTION_MOVE
  | ACTION_CANCEL
  | ACTION_POINTER_DOWN
  | ACTION_POINTER_UP
  deriving DecidableEq

inductive Mode where
  | NONE
  | DRAG
  | ZOOM
  deriving DecidableEq

structure PointF (F : Type) where
  x : F
  y : F

structure MotionEvent (F : Type) where
  action : Action
  /-- The positions of the fingers the event reports. -/
  pointers : List (PointF F)

/-- The two rows of `android.graphics.Matrix` that an affine map uses. -/
structure Matrix (F : Type) where
  scaleX : F
  skewX : F
  translateX : F
  skewY : F
  scaleY : F
  translateY : F

structure MainActivity (F : Type) where
  matrix : Matrix F
  savedMatrix : Matrix F
  mode : Mode
  start : PointF F
  mid : PointF F
  oldDist : F
  /-- The events that `spacing` and `midPoint` were called on. -/
  measured : List (MotionEvent F)

/-- One call of `onTouch` on the image view: the view's `left`, and the event. -/
structure Touch (F : Type) where
  left : ℤ
  event : MotionEvent F

section Model

variable {F : Type} [Zero F] [One F] [OfNat F 2] [OfNat F 5] [Add F] [Sub F] [Mul F] [Div F] [LT F]
  [DecidableLT F]

namespace MotionEvent

variable (event : MotionEvent F)

def getPointerCount : ℕ := event.pointers.length

/-- `getX(pointerIndex)`, with `none` for `IllegalArgumentException`. -/
def getX (pointerIndex : ℕ) : Option F := event.pointers[pointerIndex]?.map PointF.x

def getY (pointerIndex : ℕ) : Option F := event.pointers[pointerIndex]?.map PointF.y

end MotionEvent

namespace Matrix

def identity : Matrix F :=
  { scaleX := 1, skewX := 0, translateX := 0, skewY := 0, scaleY := 1, translateY := 0 }

def postTranslate (m : Matrix F) (dx dy : F) : Matrix F :=
  { m with translateX := m.translateX + dx, translateY := m.translateY + dy }

/-- Scaling about the point `(px, py)`, after `m`. -/
def postScale (m : Matrix F) (sx sy px py : F) : Matrix F where
  scaleX := sx * m.scaleX
  skewX := sx * m.skewX
  translateX := sx * m.translateX + (px - sx * px)
  skewY := sy * m.skewY
  scaleY := sy * m.scaleY
  translateY := sy * m.translateY + (py - sy * py)

end Matrix

def spacing (sqrt : F → F) (event : MotionEvent F) : Option F := do
  let x := (← event.getX 0) - (← event.getX 1)
  let y := (← event.getY 0) - (← event.getY 1)
  return sqrt (x * x + y * y)

def midPoint (event : MotionEvent F) : Option (PointF F) := do
  let x := (← event.getX 0) + (← event.getX 1)
  let y := (← event.getY 0) + (← event.getY 1)
  return { x := x / 2, y := y / 2 }

namespace MainActivity

def init : MainActivity F where
  matrix := .identity
  savedMatrix := .identity
  mode := .NONE
  start := { x := 0, y := 0 }
  mid := { x := 0, y := 0 }
  oldDist := 1
  measured := []

/-- Records a call of `spacing` or `midPoint`. -/
def measure (activity : MainActivity F) (event : MotionEvent F) : MainActivity F :=
  { activity with measured := activity.measured ++ [event] }

def onTouch (sqrt : F → F) (activity : MainActivity F) (touch : Touch F) :
    Option (MainActivity F) :=
  let event := touch.event
  match event.action with
  | .ACTION_DOWN => do
    let start := { x := ← event.getX 0, y := ← event.getY 0 }
    return { activity with savedMatrix := activity.matrix, start, mode := .DRAG }
  | .ACTION_UP | .ACTION_POINTER_UP => some { activity with mode := .NONE }
  | .ACTION_POINTER_DOWN => do
    let oldDist ← spacing sqrt event
    let activity := { activity.measure event with oldDist }
    if 5 < oldDist then
      let mid ← midPoint event
      return { activity.measure event with savedMatrix := activity.matrix, mid, mode := .ZOOM }
    else
      return activity
  | .ACTION_MOVE =>
    match activity.mode with
    | .DRAG => do
      let activity := { activity with matrix := activity.savedMatrix }
      if -392 ≤ touch.left then
        let dx := (← event.getX 0) - activity.start.x
        let dy := (← event.getY 0) - activity.start.y
        return { activity with matrix := activity.matrix.postTranslate dx dy }
      else
        return activity
    | .ZOOM => do
      let newDist ← spacing sqrt event
      let activity := activity.measure event
      if 5 < newDist then
        let scale := newDist / activity.oldDist
        return { activity with
          matrix := activity.savedMatrix.postScale scale scale activity.mid.x activity.mid.y }
      else
        return activity
    | .NONE => some activity
  -- the source has no branch for a cancelled gesture
  | .ACTION_CANCEL => some activity

end MainActivity

end Model

end CodeNotes.Pinch
