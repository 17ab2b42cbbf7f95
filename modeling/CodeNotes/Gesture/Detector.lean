import CodeNotes.Lib.Looper
import CodeNotes.Lib.Run

/-!
# Single and double clicks

`DoubleClickListener` of `gesture_detector` tells single from double clicks: at the end of every tap
that `GestureDetector` reports with `onSingleTapUp` it posts its single-click task, and at a double
tap it removes the task again.  The detector is that of the project's notes: it keeps a `TAP`
message pending for a while after the press of a first tap, and a `LONG_PRESS` message until the
release.  Both post to the queue of one looper, which takes the messages in order of time, but may
be late.

Taps are numbered from `1` in the order of their presses.  The numbers, and the lists of what was
reported and called for which tap, are kept for the statements only: the code cannot tell one posted
copy of its task from another.
-/

namespace CodeNotes.Gesture

open Looper

/-- The values of `ViewConfiguration` that the detector and the listener read, in milliseconds and
square pixels. -/
structure ViewConfiguration where
  doubleTapTimeout : ℕ
  doubleTapMinTime : ℕ
  doubleTapSlopSquare : Int32
  longPressTimeout : ℕ

/-- A press or a release, with its coordinates cast to `int`. -/
structure MotionEvent where
  eventTime : ℕ
  x : Int32
  y : Int32

inductive Task where
  | TAP
  | LONG_PRESS
  /-- The listener's one `Runnable`, in the copy posted for a tap. -/
  | mSingleClickTask (tap : ℕ)
  deriving DecidableEq

namespace Task

/-- The tap whose click the task makes. -/
def click : Task → Option ℕ
  | mSingleClickTask tap => some tap
  | _ => none

end Task

structure State where
  /-- The time in milliseconds. -/
  clock : ℕ
  queue : Queue Task
  /-- The finger is down. -/
  touching : Bool
  mCurrentDownEvent : Option MotionEvent
  mPreviousUpEvent : Option MotionEvent
  mIsDoubleTapping : Bool
  mInLongPress : Bool
  /-- The number of the latest press. -/
  tap : ℕ
  /-- The taps reported with `onSingleTapUp`. -/
  singleTapUps : List ℕ
  /-- For every `onDoubleTap`, the first tap of the two. -/
  doubleTaps : List ℕ
  /-- For every call of `onSingleClickListener`, the tap whose task made it. -/
  singleClicks : List ℕ
  /-- For every call of `onDoubleClickListener`, the first tap of the two. -/
  doubleClicks : List ℕ

/-- `isConsideredDoubleTap` of the notes. -/
def isConsideredDoubleTap (config : ViewConfiguration)
    (firstDown firstUp secondDown : MotionEvent) :
    Bool :=
  let deltaTime : ℤ := secondDown.eventTime - firstUp.eventTime
  if deltaTime > config.doubleTapTimeout ∨ deltaTime < config.doubleTapMinTime then false
  else
    let deltaX := firstDown.x - secondDown.x
    let deltaY := firstDown.y - secondDown.y
    deltaX * deltaX + deltaY * deltaY < config.doubleTapSlopSquare

namespace State

def init : State where
  clock := 0
  queue := .empty
  touching := false
  mCurrentDownEvent := none
  mPreviousUpEvent := none
  mIsDoubleTapping := false
  mInLongPress := false
  tap := 0
  singleTapUps := []
  doubleTaps := []
  singleClicks := []
  doubleClicks := []

/-! ### The looper -/

def sendMessageAtTime (st : State) (task : Task) (time : ℕ) : State :=
  { st with queue := st.queue.post task time }

/-- `sendEmptyMessageDelayed` of the handler and `postDelayed` of the view. -/
def postDelayed (st : State) (task : Task) (delay : ℕ) : State :=
  st.sendMessageAtTime task (st.clock + delay)

def removeMessages (st : State) (what : Task) : State :=
  { st with queue := st.queue.remove fun task => task = what }

/-- `removeCallbacks(mSingleClickTask)`: every copy goes. -/
def removeCallbacks (st : State) : State :=
  { st with queue := st.queue.remove fun task => task.click.isSome }

/-! ### The listener -/

def onSingleTapUp (config : ViewConfiguration) (st : State) : State :=
  st.postDelayed (.mSingleClickTask st.tap) config.doubleTapTimeout

def onDoubleTap (st : State) : State :=
  { st.removeCallbacks with doubleClicks := st.doubleClicks ++ [st.tap] }

/-! ### The detector -/

/-- The press is the second of a double tap. -/
def isDoubleTap (config : ViewConfiguration) (st : State) (ev : MotionEvent) : Bool :=
  match st.mCurrentDownEvent, st.mPreviousUpEvent with
  | some firstDown, some firstUp =>
    decide (.TAP ∈ st.queue.tasks) && isConsideredDoubleTap config firstDown firstUp ev
  | _, _ => false

/-- The report of a press, either way. -/
def reportDown (config : ViewConfiguration) (st : State) (ev : MotionEvent) : State :=
  let second := st.isDoubleTap config ev
  let st := st.removeMessages .TAP
  if second then
    onDoubleTap { st with mIsDoubleTapping := true, doubleTaps := st.doubleTaps ++ [st.tap] }
  else st.postDelayed .TAP config.doubleTapTimeout

/-- `onTouchEvent` for `ACTION_DOWN`; long presses are enabled, as they are by default. -/
def actionDown (config : ViewConfiguration) (st : State) (ev : MotionEvent) : State :=
  let st := st.reportDown config ev
  let st := { st with mCurrentDownEvent := some ev, touching := true, tap := st.tap + 1 }
  let st := st.removeMessages .LONG_PRESS
  let st := st.sendMessageAtTime .LONG_PRESS (ev.eventTime + config.longPressTimeout)
  { st with mInLongPress := false }

/-- The report of a release. -/
def reportUp (config : ViewConfiguration) (st : State) : State :=
  if st.mIsDoubleTapping then st
  else if st.mInLongPress then { st with mInLongPress := false }
  else onSingleTapUp config { st with singleTapUps := st.singleTapUps ++ [st.tap] }

/-- `onTouchEvent` for `ACTION_UP`. -/
def actionUp (config : ViewConfiguration) (st : State) (ev : MotionEvent) : State :=
  let st := st.reportUp config
  let st := { st with mPreviousUpEvent := some ev, touching := false, mIsDoubleTapping := false }
  st.removeMessages .LONG_PRESS

/-- What the looper does with a message.  The listener leaves `onSingleTapConfirmed` and
`onLongPress` as they are. -/
def handleMessage (st : State) : Task → State
  | .TAP => st
  | .LONG_PRESS => { st with mInLongPress := true }
  | .mSingleClickTask tap => { st with singleClicks := st.singleClicks ++ [tap] }

end State

inductive Event where
  /-- Time passes. -/
  | elapse (ms : ℕ)
  /-- The looper takes its next message. -/
  | loop
  | down (ev : MotionEvent)
  | up (ev : MotionEvent)

/-- One event.  Presses and releases of one finger alternate; the time stamp of either may be
earlier than the time it is handled. -/
def step (config : ViewConfiguration) (st : State) : Event → Option State
  | .elapse ms => some { st with clock := st.clock + ms }
  | .loop =>
    match st.queue.next st.clock with
    | some (task, queue) => some ({ st with queue }.handleMessage task)
    | none => none
  | .down ev => if st.touching then none else some (st.actionDown config ev)
  | .up ev => if st.touching then some (st.actionUp config ev) else none

end CodeNotes.Gesture
