import CodeNotes.Gesture.Detector

/-!
# Which clicks are called

The listener posts one runnable for every tap, and a double tap removes all its posted copies.  The
first tap of a double tap is never called as a single click: its task is posted after its `TAP`
message and due no earlier, so that it is still pending at the second press (`Inv.precedes`).  Every
other tap keeps its click exactly as long as no double tap finds the click of a third tap pending
(`owed_step_iff`), which `clicks_kept_apart_iff` carries to whole runs.
-/

namespace CodeNotes.Gesture

open Looper Run

/-! ### Pending clicks -/

/-- The taps whose single-click task is in the queue. -/
def clicksIn (queue : Queue Task) : List ℕ := queue.tasks.filterMap Task.click

theorem mem_clicksIn {queue : Queue Task} {tap : ℕ} :
    tap ∈ clicksIn queue ↔ .mSingleClickTask tap ∈ queue.tasks := by
  rw [clicksIn, List.mem_filterMap]
  constructor
  · rintro ⟨_ | _ | other, mem, same⟩
    · cases same
    · cases same
    · cases same
      exact mem
  · exact fun mem => ⟨_, mem, rfl⟩

theorem clicksIn_post (queue : Queue Task) (task : Task) (time : ℕ) :
    (clicksIn (queue.post task time)).Perm (task.click.toList ++ clicksIn queue) := by
  have perm := (queue.tasks_post task time).filterMap Task.click
  cases task <;> exact perm

theorem clicksIn_remove (queue : Queue Task) {what : Task} (quiet : what.click = none) :
    clicksIn (queue.remove fun task => task = what) = clicksIn queue := by
  rw [clicksIn, Queue.tasks_remove, List.filterMap_filter, clicksIn]
  congr 1
  funext task
  by_cases same : task = what
  · simp [same, quiet]
  · simp [same]

theorem clicksIn_removeCallbacks (queue : Queue Task) :
    clicksIn (queue.remove fun task => task.click.isSome) = [] := by
  apply List.eq_nil_iff_forall_not_mem.2
  intro tap mem
  rw [mem_clicksIn, Queue.tasks_remove] at mem
  simp [Task.click] at mem

namespace State

/-- The clicks that are called if nothing more is tapped. -/
def clicks (st : State) : List ℕ := st.singleClicks ++ clicksIn st.queue

/-- The message is handled as soon as it is due. -/
def handleAtTime (st : State) (m : Message Task) : State :=
  { st with clock := max st.clock m.due }.handleMessage m.what

/-- The state once the looper has handled every pending message. -/
def drained (st : State) : State :=
  st.queue.messages.foldl handleAtTime { st with queue := .empty }

theorem singleClicks_handleMessage (st : State) (task : Task) :
    (st.handleMessage task).singleClicks = st.singleClicks ++ task.click.toList := by
  cases task with
  | TAP => exact (List.append_nil _).symm
  | LONG_PRESS => exact (List.append_nil _).symm
  | mSingleClickTask tap => rfl

theorem handleMessage_queue (st : State) (queue : Queue Task) (task : Task) :
    { st with queue }.handleMessage task = { st.handleMessage task with queue } := by
  cases task <;> rfl

theorem singleClicks_drained (st : State) : st.drained.singleClicks = st.clicks := by
  suffices general : ∀ (messages : List (Message Task)) (st : State),
      (messages.foldl handleAtTime st).singleClicks =
        st.singleClicks ++ (messages.map Message.what).filterMap Task.click from general _ _
  intro messages
  induction messages with
  | nil => exact fun st => (List.append_nil _).symm
  | cons m messages ih =>
    intro st
    rw [List.foldl_cons, ih, handleAtTime, singleClicks_handleMessage, List.map_cons,
      List.filterMap_cons]
    cases m.what.click <;> simp

/-- The looper reaches that state by itself, as time passes. -/
theorem run_drained (config : ViewConfiguration) (st : State) :
    ∃ events : List Event, (∀ e ∈ events, e = .loop ∨ ∃ ms, e = .elapse ms) ∧
      run (step config) st events = some st.drained := by
  suffices general : ∀ (messages : List (Message Task)) sorted (st : State),
      ∃ events : List Event, (∀ e ∈ events, e = .loop ∨ ∃ ms, e = .elapse ms) ∧
        run (step config) { st with queue := ⟨messages, sorted⟩ } events =
          some (messages.foldl handleAtTime { st with queue := .empty }) from
    general st.queue.messages st.queue.sorted st
  intro messages sorted
  induction messages with
  | nil => exact fun st => ⟨[], by simp, rfl⟩
  | cons m messages ih =>
    intro st
    obtain ⟨events, waiting, ran⟩ := ih (List.pairwise_cons.1 sorted).2 (st.handleAtTime m)
    refine ⟨.elapse (m.due - st.clock) :: .loop :: events, ?_, ?_⟩
    · intro e mem
      rcases List.mem_cons.1 mem with rfl | mem
      · exact Or.inr ⟨_, rfl⟩
      rcases List.mem_cons.1 mem with rfl | mem
      · exact Or.inl rfl
      · exact waiting e mem
    · have waited : step config { st with queue := ⟨m :: messages, sorted⟩ }
          (.elapse (m.due - st.clock)) =
          some { st with clock := max st.clock m.due, queue := ⟨m :: messages, sorted⟩ } := by
        rw [step, show st.clock + (m.due - st.clock) = max st.clock m.due by omega]
      have looped : step config
          { st with clock := max st.clock m.due, queue := ⟨m :: messages, sorted⟩ } .loop =
          some { st.handleAtTime m with queue := ⟨messages, (List.pairwise_cons.1 sorted).2⟩ } := by
        rw [step, Queue.next, if_pos (le_max_right _ _), handleAtTime, ← handleMessage_queue]
      have folded : handleAtTime { st with queue := .empty } m =
          { st.handleAtTime m with queue := .empty } :=
        handleMessage_queue { st with clock := max st.clock m.due } .empty m.what
      rw [run_cons, waited, Option.bind_some, run_cons, looped, Option.bind_some, List.foldl_cons,
        folded]
      exact ran

end State

/-! ### Presses and releases -/

section Forms

variable {config : ViewConfiguration} {st : State} {ev : MotionEvent}

/-- The queue after the long-press message of a press was sent. -/
def sendLongPress (config : ViewConfiguration) (ev : MotionEvent) (queue : Queue Task) :
    Queue Task :=
  (queue.remove fun task => task = .LONG_PRESS).post .LONG_PRESS
    (ev.eventTime + config.longPressTimeout)

theorem actionDown_first (first : st.isDoubleTap config ev = false) :
    st.actionDown config ev = { st with
      queue := sendLongPress config ev ((st.queue.remove fun task => task = .TAP).post .TAP
        (st.clock + config.doubleTapTimeout))
      mCurrentDownEvent := some ev, touching := true, tap := st.tap + 1,
      mInLongPress := false } := by
  rw [State.actionDown, State.reportDown, first]
  rfl

theorem actionDown_second (second : st.isDoubleTap config ev = true) :
    st.actionDown config ev = { st with
      queue := sendLongPress config ev ((st.queue.remove fun task => task = .TAP).remove
        fun task => task.click.isSome)
      mCurrentDownEvent := some ev, touching := true, tap := st.tap + 1, mInLongPress := false
      mIsDoubleTapping := true, doubleTaps := st.doubleTaps ++ [st.tap]
      doubleClicks := st.doubleClicks ++ [st.tap] } := by
  rw [State.actionDown, State.reportDown, second]
  rfl

theorem actionUp_silent (config : ViewConfiguration) (ev : MotionEvent)
    (silent : st.mIsDoubleTapping = true ∨ st.mInLongPress = true) :
    ∃ inLongPress, st.actionUp config ev = { st with
      queue := st.queue.remove fun task => task = .LONG_PRESS
      mInLongPress := inLongPress, mPreviousUpEvent := some ev, touching := false
      mIsDoubleTapping := false } := by
  rw [State.actionUp, State.reportUp]
  by_cases second : st.mIsDoubleTapping = true
  · rw [if_pos second]
    exact ⟨_, rfl⟩
  · rw [if_neg second, if_pos (silent.resolve_left second)]
    exact ⟨_, rfl⟩

theorem actionUp_single (first : st.mIsDoubleTapping = false) (short : st.mInLongPress = false) :
    st.actionUp config ev = { st with
      queue :=
        (st.queue.post (.mSingleClickTask st.tap) (st.clock + config.doubleTapTimeout)).remove
        fun task => task = .LONG_PRESS
      singleTapUps := st.singleTapUps ++ [st.tap], mPreviousUpEvent := some ev, touching := false
      mIsDoubleTapping := false } := by
  rw [State.actionUp, State.reportUp, first, short]
  rfl

theorem tap_mem_of_isDoubleTap (second : st.isDoubleTap config ev = true) :
    .TAP ∈ st.queue.tasks := by
  unfold State.isDoubleTap at second
  split at second
  · rw [Bool.and_eq_true, decide_eq_true_iff] at second
    exact second.1
  · cases second

theorem clicksIn_sendLongPress (config : ViewConfiguration) (ev : MotionEvent)
    (queue : Queue Task) :
    (clicksIn (sendLongPress config ev queue)).Perm (clicksIn queue) := by
  have perm := clicksIn_post (queue.remove fun task => task = .LONG_PRESS) .LONG_PRESS
    (ev.eventTime + config.longPressTimeout)
  rwa [clicksIn_remove queue rfl] at perm

theorem clicks_first (first : st.isDoubleTap config ev = false) :
    (st.actionDown config ev).clicks.Perm st.clicks := by
  rw [actionDown_first first]
  apply List.Perm.append_left
  have posted := clicksIn_post (st.queue.remove fun task => task = .TAP) .TAP
    (st.clock + config.doubleTapTimeout)
  rw [clicksIn_remove st.queue rfl] at posted
  exact (clicksIn_sendLongPress config ev _).trans posted

theorem clicks_second (second : st.isDoubleTap config ev = true) :
    (st.actionDown config ev).clicks = st.singleClicks := by
  rw [actionDown_second second]
  have none := clicksIn_sendLongPress config ev
    ((st.queue.remove fun task => task = .TAP).remove fun task => task.click.isSome)
  rw [clicksIn_removeCallbacks, List.perm_nil] at none
  rw [State.clicks, none, List.append_nil]

theorem clicks_silent (config : ViewConfiguration) (ev : MotionEvent)
    (silent : st.mIsDoubleTapping = true ∨ st.mInLongPress = true) :
    (st.actionUp config ev).clicks = st.clicks := by
  obtain ⟨inLongPress, form⟩ := actionUp_silent config ev silent
  rw [form, State.clicks, clicksIn_remove st.queue rfl]
  rfl

theorem clicks_single (config : ViewConfiguration) (ev : MotionEvent)
    (first : st.mIsDoubleTapping = false) (short : st.mInLongPress = false) :
    (st.actionUp config ev).clicks.Perm (st.tap :: st.clicks) := by
  rw [actionUp_single first short, State.clicks, clicksIn_remove _ rfl]
  exact ((clicksIn_post st.queue _ _).append_left _).trans List.perm_middle

theorem clicksIn_next {queue queue' : Queue Task} {now : ℕ} {task : Task}
    (next : queue.next now = some (task, queue')) :
    clicksIn queue = task.click.toList ++ clicksIn queue' := by
  rw [clicksIn, Queue.tasks_next next, List.filterMap_cons]
  cases task.click <;> rfl

theorem step_loop {st' : State} (stepped : step config st .loop = some st') :
    ∃ task queue inLongPress, st.queue.next st.clock = some (task, queue) ∧
      st' = { st with
        queue := queue, mInLongPress := inLongPress
        singleClicks := st.singleClicks ++ task.click.toList } := by
  rw [step] at stepped
  split at stepped
  · rename_i task queue next
    cases stepped
    refine ⟨task, queue, ({ st with queue }.handleMessage task).mInLongPress, next, ?_⟩
    cases task with
    | TAP => simp [State.handleMessage, Task.click]
    | LONG_PRESS => simp [State.handleMessage, Task.click]
    | mSingleClickTask tap => rfl
  · cases stepped

theorem step_down {st' : State} (stepped : step config st (.down ev) = some st') :
    st' = st.actionDown config ev := by
  rw [step] at stepped
  split_ifs at stepped
  exact (Option.some.inj stepped).symm

theorem step_up {st' : State} (stepped : step config st (.up ev) = some st') :
    st.touching = true ∧ st' = st.actionUp config ev := by
  rw [step] at stepped
  split_ifs at stepped with touching
  exact ⟨touching, (Option.some.inj stepped).symm⟩

theorem clicks_loop {st' : State} (stepped : step config st .loop = some st') :
    st'.clicks = st.clicks := by
  obtain ⟨task, queue, inLongPress, next, rfl⟩ := step_loop stepped
  rw [State.clicks, State.clicks, clicksIn_next next, List.append_assoc]

end Forms

/-! ### The invariant -/

structure Inv (config : ViewConfiguration) (st : State) : Prop where
  /-- Taps are reported at their release. -/
  released : ∀ i ∈ st.singleTapUps, i < st.tap ∨ i = st.tap ∧ st.touching = false
  earlier : ∀ i ∈ st.doubleTaps, i < st.tap
  nodup : st.clicks.Nodup
  reported : ∀ i ∈ st.clicks, i ∈ st.singleTapUps
  first : ∀ i ∈ st.doubleTaps, i ∉ st.clicks
  /-- The click of the latest tap cannot have been removed yet. -/
  latest : st.tap ∈ st.singleTapUps → st.tap ∈ st.clicks
  /-- While the `TAP` message is pending the latest tap has not been called. -/
  uncalled : .TAP ∈ st.queue.tasks → st.tap ∉ st.singleClicks
  dueBy : st.queue.DueBy .TAP (st.clock + config.doubleTapTimeout)
  /-- The click of the latest tap waits for its `TAP` message. -/
  precedes : st.queue.Precedes .TAP (.mSingleClickTask st.tap)
  double : st.doubleClicks = st.doubleTaps

theorem inv_init (config : ViewConfiguration) : Inv config .init where
  released := by simp [State.init]
  earlier := by simp [State.init]
  nodup := List.nodup_nil
  reported := by simp [State.init, State.clicks, clicksIn, Queue.tasks_empty]
  first := by simp [State.init]
  latest := by simp [State.init]
  uncalled := by simp [State.init]
  dueBy := Queue.dueBy_of_notMem (by simp [State.init, Queue.tasks_empty])
  precedes := Queue.precedes_of_notMem (by simp [State.init, Queue.tasks_empty])
  double := rfl

section Preservation

variable {config : ViewConfiguration} {st st' : State} {ev : MotionEvent}

theorem Inv.lt_of_mem_clicks (inv : Inv config st) {i : ℕ} (mem : i ∈ st.clicks) :
    i < st.tap + 1 := by
  rcases inv.released i (inv.reported i mem) with lt | ⟨rfl, -⟩ <;> omega

theorem Inv.ne_tap_of_touching (inv : Inv config st) (touching : st.touching = true) {i : ℕ}
    (mem : i ∈ st.singleTapUps) : i ≠ st.tap := by
  rintro rfl
  rcases inv.released st.tap mem with lt | ⟨-, up⟩
  · exact absurd lt (lt_irrefl _)
  · rw [touching] at up
    cases up

/-- A new press keeps the invariant, whether or not it removes clicks. -/
theorem inv_down (inv : Inv config st) (tap : st'.tap = st.tap + 1)
    (ups : st'.singleTapUps = st.singleTapUps) (calls : st'.singleClicks = st.singleClicks)
    (nodup : st'.clicks.Nodup) (fewer : st'.clicks ⊆ st.clicks)
    (doubleTaps : ∀ i ∈ st'.doubleTaps, i ∈ st.doubleTaps ∨ i = st.tap ∧ st.tap ∉ st'.clicks)
    (double : st'.doubleClicks = st'.doubleTaps)
    (dueBy : st'.queue.DueBy .TAP (st'.clock + config.doubleTapTimeout)) : Inv config st' where
  released i mem := by
    rw [ups] at mem
    rcases inv.released i mem with lt | ⟨rfl, -⟩ <;> omega
  earlier i mem := by
    rcases doubleTaps i mem with old | ⟨rfl, -⟩
    · have lt := inv.earlier i old
      omega
    · omega
  nodup := nodup
  reported i mem := by
    rw [ups]
    exact inv.reported i (fewer mem)
  first i mem := by
    rcases doubleTaps i mem with old | ⟨rfl, absent⟩
    · exact fun called => inv.first i old (fewer called)
    · exact absent
  latest mem := by
    rw [tap, ups] at mem
    rcases inv.released _ mem with lt | ⟨same, -⟩ <;> omega
  uncalled _ mem := by
    rw [tap, calls] at mem
    exact absurd (inv.lt_of_mem_clicks (List.mem_append_left _ mem)) (lt_irrefl _)
  dueBy := dueBy
  precedes := by
    apply Queue.precedes_of_notMem
    intro mem
    have pending := fewer (List.mem_append_right st'.singleClicks (mem_clicksIn.2 mem))
    rw [tap] at pending
    exact absurd (inv.lt_of_mem_clicks pending) (lt_irrefl _)
  double := double

theorem inv_actionDown (inv : Inv config st) (ev : MotionEvent) :
    Inv config (st.actionDown config ev) := by
  cases second : st.isDoubleTap config ev with
  | false =>
    have clicks := clicks_first second
    have noTap : .TAP ∉ (st.queue.remove fun task => task = .TAP).tasks := by
      simp [Queue.tasks_remove]
    rw [actionDown_first second] at clicks ⊢
    apply inv_down inv
    · rfl
    · rfl
    · rfl
    · exact clicks.nodup_iff.2 inv.nodup
    · exact clicks.subset
    · exact fun i mem => Or.inl mem
    · exact inv.double
    · apply Queue.DueBy.post _ (by simp)
      apply Queue.DueBy.remove
      exact (Queue.dueBy_of_notMem noTap).post fun _ => le_rfl
  | true =>
    have clicks := clicks_second second
    have uncalled := inv.uncalled (tap_mem_of_isDoubleTap second)
    rw [actionDown_second second] at clicks ⊢
    apply inv_down inv
    · rfl
    · rfl
    · rfl
    · rw [clicks]
      exact inv.nodup.of_append_left
    · rw [clicks]
      exact List.subset_append_left _ _
    · intro i mem
      rcases List.mem_append.1 mem with old | new
      · exact Or.inl old
      · rw [clicks]
        exact Or.inr ⟨List.mem_singleton.1 new, uncalled⟩
    · rw [inv.double]
    · apply Queue.DueBy.post _ (by simp)
      exact ((inv.dueBy.remove _).remove _).remove _

theorem inv_actionUp (inv : Inv config st) (touching : st.touching = true) (ev : MotionEvent) :
    Inv config (st.actionUp config ev) := by
  have before : ∀ i ∈ st.singleTapUps, i < st.tap := by
    intro i mem
    rcases inv.released i mem with lt | ⟨same, -⟩
    · exact lt
    · exact absurd same (inv.ne_tap_of_touching touching mem)
  by_cases silent : st.mIsDoubleTapping = true ∨ st.mInLongPress = true
  · have clicks := clicks_silent config ev silent
    obtain ⟨inLongPress, form⟩ := actionUp_silent config ev silent
    rw [form] at clicks ⊢
    exact {
      released := fun i mem => Or.inl (before i mem)
      earlier := inv.earlier
      nodup := clicks ▸ inv.nodup
      reported := fun i mem => inv.reported i (clicks ▸ mem)
      first := fun i mem => clicks ▸ inv.first i mem
      latest := fun mem => absurd (before st.tap mem) (lt_irrefl _)
      uncalled := fun mem => inv.uncalled (List.mem_of_mem_filter (Queue.tasks_remove _ _ ▸ mem))
      dueBy := inv.dueBy.remove _
      precedes := inv.precedes.remove _
      double := inv.double }
  · simp only [not_or, Bool.not_eq_true] at silent
    obtain ⟨first, short⟩ := silent
    have clicks := clicks_single config ev first short
    rw [actionUp_single first short] at clicks ⊢
    have fresh : st.tap ∉ st.clicks := fun mem => lt_irrefl _ (before _ (inv.reported _ mem))
    exact {
      released := by
        intro i mem
        rcases List.mem_append.1 mem with old | new
        · exact Or.inl (before i old)
        · exact Or.inr ⟨List.mem_singleton.1 new, rfl⟩
      earlier := inv.earlier
      nodup := clicks.nodup_iff.2 (List.nodup_cons.2 ⟨fresh, inv.nodup⟩)
      reported := by
        intro i mem
        rcases List.mem_cons.1 (clicks.subset mem) with rfl | old
        · exact List.mem_append_right _ List.mem_cons_self
        · exact List.mem_append_left _ (inv.reported i old)
      first := by
        intro i mem called
        rcases List.mem_cons.1 (clicks.subset called) with rfl | old
        · exact lt_irrefl _ (inv.earlier _ mem)
        · exact inv.first i mem old
      latest := fun _ => clicks.mem_iff.2 List.mem_cons_self
      uncalled := fun _ called => fresh (List.mem_append_left _ called)
      dueBy := (inv.dueBy.post (by simp)).remove _
      precedes := (inv.precedes.post (by simp) fun _ => inv.dueBy).remove _
      double := inv.double }

theorem inv_loop (inv : Inv config st) (stepped : step config st .loop = some st') :
    Inv config st' := by
  have clicks := clicks_loop stepped
  obtain ⟨task, queue, inLongPress, next, rfl⟩ := step_loop stepped
  exact {
    released := inv.released
    earlier := inv.earlier
    nodup := clicks ▸ inv.nodup
    reported := fun i mem => inv.reported i (clicks ▸ mem)
    first := fun i mem => clicks ▸ inv.first i mem
    latest := fun mem => clicks ▸ inv.latest mem
    uncalled := by
      intro pending called
      rcases List.mem_append.1 called with old | new
      · exact inv.uncalled (Queue.tasks_next next ▸ List.mem_cons_of_mem _ pending) old
      · cases task with
        | TAP => cases new
        | LONG_PRESS => cases new
        | mSingleClickTask tap =>
          rw [Task.click, Option.toList, List.mem_singleton] at new
          have latest : tap = st.tap := new.symm
          subst latest
          exact inv.precedes.next_notMem next pending
    dueBy := inv.dueBy.next next
    precedes := inv.precedes.next next
    double := inv.double }

theorem inv_step (inv : Inv config st) {e : Event} (stepped : step config st e = some st') :
    Inv config st' := by
  cases e with
  | elapse ms =>
    cases stepped
    exact { inv with dueBy := inv.dueBy.mono (by simp only; omega) }
  | loop => exact inv_loop inv stepped
  | down ev =>
    rw [step_down stepped]
    exact inv_actionDown inv ev
  | up ev =>
    obtain ⟨touching, rfl⟩ := step_up stepped
    exact inv_actionUp inv touching ev

end Preservation

/-! ### Clicks kept apart -/

/-- Once the looper has handled what is pending, the first tap of a double tap has no single click,
every other reported tap has one, and every double tap has its double click. -/
structure KeptApart (st : State) : Prop where
  first : ∀ i ∈ st.doubleTaps, st.drained.singleClicks.count i = 0
  other : ∀ i ∈ st.singleTapUps, i ∉ st.doubleTaps → st.drained.singleClicks.count i = 1
  double : st.doubleClicks = st.doubleTaps

/-- No click is missing. -/
def Owed (st : State) : Prop := ∀ i ∈ st.singleTapUps, i ∉ st.doubleTaps → i ∈ st.clicks

/-- A double tap finds no click pending but that of its first tap. -/
def Alone (config : ViewConfiguration) (st : State) : Event → Prop
  | .down ev => st.isDoubleTap config ev = true → ∀ i ∈ clicksIn st.queue, i = st.tap
  | _ => True

instance (config : ViewConfiguration) (st : State) (e : Event) : Decidable (Alone config st e) :=
  match e with
  | .down ev =>
    inferInstanceAs
      (Decidable (st.isDoubleTap config ev = true → ∀ i ∈ clicksIn st.queue, i = st.tap))
  | .elapse _ => .isTrue trivial
  | .loop => .isTrue trivial
  | .up _ => .isTrue trivial

section Apart

variable {config : ViewConfiguration} {st st' : State}

theorem keptApart_iff (inv : Inv config st) : KeptApart st ↔ Owed st := by
  constructor
  · intro kept i reported other
    have one := kept.other i reported other
    rw [State.singleClicks_drained] at one
    exact List.count_pos_iff.1 (by omega)
  · intro owed
    refine ⟨fun i mem => ?_, fun i reported other => ?_, inv.double⟩
    · rw [State.singleClicks_drained]
      exact List.count_eq_zero.2 (inv.first i mem)
    · rw [State.singleClicks_drained]
      exact List.count_eq_one_of_mem inv.nodup (owed i reported other)

/-- A double tap drops every click but those already called. -/
theorem owed_second_iff (inv : Inv config st) {ev : MotionEvent}
    (second : st.isDoubleTap config ev = true) :
    Owed (st.actionDown config ev) ↔ Owed st ∧ ∀ i ∈ clicksIn st.queue, i = st.tap := by
  have clicks := clicks_second second
  have uncalled := inv.uncalled (tap_mem_of_isDoubleTap second)
  unfold Owed
  rw [clicks, actionDown_second second]
  constructor
  · intro owed
    have called : ∀ i ∈ st.singleTapUps, i ∉ st.doubleTaps → i ≠ st.tap → i ∈ st.singleClicks := by
      intro i reported other third
      exact owed i reported (by simp [other, third])
    constructor
    · intro i reported other
      by_cases latest : i = st.tap
      · subst latest
        exact inv.latest reported
      · exact List.mem_append_left _ (called i reported other latest)
    · intro i pending
      have mem : i ∈ st.clicks := List.mem_append_right _ pending
      by_contra third
      exact List.disjoint_of_nodup_append inv.nodup
        (called i (inv.reported i mem) (fun old => inv.first i old mem) third) pending
  · rintro ⟨owed, alone⟩ i reported other
    obtain ⟨old, third⟩ : i ∉ st.doubleTaps ∧ i ≠ st.tap := by simpa using other
    rcases List.mem_append.1 (owed i reported old) with called | pending
    · exact called
    · exact absurd (alone i pending) third

theorem owed_up_iff (inv : Inv config st) (touching : st.touching = true) (ev : MotionEvent) :
    Owed (st.actionUp config ev) ↔ Owed st := by
  by_cases silent : st.mIsDoubleTapping = true ∨ st.mInLongPress = true
  · unfold Owed
    rw [clicks_silent config ev silent]
    obtain ⟨inLongPress, form⟩ := actionUp_silent config ev silent
    rw [form]
  · simp only [not_or, Bool.not_eq_true] at silent
    have clicks := clicks_single config ev silent.1 silent.2
    unfold Owed
    simp only [clicks.mem_iff]
    rw [actionUp_single silent.1 silent.2]
    constructor
    · intro owed i reported other
      exact (List.mem_cons.1 (owed i (List.mem_append_left _ reported) other)).resolve_left
        (inv.ne_tap_of_touching touching reported)
    · intro owed i reported other
      rcases List.mem_append.1 reported with old | new
      · exact List.mem_cons_of_mem _ (owed i old other)
      · exact List.mem_cons.2 (Or.inl (List.mem_singleton.1 new))

/-- A step loses no click exactly if it is not a double tap with a third click pending; a lost click
stays lost. -/
theorem owed_step_iff (inv : Inv config st) {e : Event} (stepped : step config st e = some st') :
    Owed st' ↔ Owed st ∧ Alone config st e := by
  cases e with
  | elapse ms =>
    cases stepped
    exact (and_iff_left trivial).symm
  | loop =>
    have clicks := clicks_loop stepped
    obtain ⟨task, queue, inLongPress, next, rfl⟩ := step_loop stepped
    unfold Owed
    rw [clicks]
    exact (and_iff_left trivial).symm
  | down ev =>
    rw [step_down stepped]
    cases second : st.isDoubleTap config ev with
    | false =>
      have clicks := clicks_first second
      have alone : Alone config st (.down ev) := fun double => absurd double (by simp [second])
      unfold Owed
      simp only [clicks.mem_iff]
      rw [actionDown_first second]
      exact (and_iff_left alone).symm
    | true =>
      rw [owed_second_iff inv second, Alone]
      simp [second]
  | up ev =>
    obtain ⟨touching, rfl⟩ := step_up stepped
    rw [owed_up_iff inv touching]
    exact (and_iff_left trivial).symm

/-- **Single and double clicks are kept apart after a run of taps, without losing any, exactly if no
double tap of the run found the click of a third tap pending.** -/
theorem clicks_kept_apart_iff {events : List Event}
    (ran : run (step config) .init events = some st) :
    KeptApart st ↔ run (restrict (Alone config) (step config)) .init events = some st := by
  have preserved : ∀ st e st', Inv config st → step config st e = some st' → Inv config st' :=
    fun _ _ _ inv stepped => inv_step inv stepped
  rw [keptApart_iff (run_invariant preserved (inv_init config) ran)]
  apply run_restrict_iff preserved (fun _ _ _ inv stepped => owed_step_iff inv stepped)
    (inv_init config) _ ran
  intro i reported
  cases reported

/-- The first tap of a double tap never clicks, whatever else is tapped. -/
theorem first_tap_never_clicks {events : List Event}
    (ran : run (step config) .init events = some st) {i : ℕ} (first : i ∈ st.doubleTaps) :
    i ∉ st.drained.singleClicks := by
  have inv : Inv config st :=
    run_invariant (fun _ _ _ inv stepped => inv_step inv stepped) (inv_init config) ran
  rw [State.singleClicks_drained]
  exact inv.first i first

/-- The values of a common device. -/
def defaults : ViewConfiguration where
  doubleTapTimeout := 300
  doubleTapMinTime := 40
  doubleTapSlopSquare := 10000
  longPressTimeout := 400

/-- A double tap and a tap after it. -/
def doubleThenSingle : List Event :=
  [.down ⟨0, 10, 10⟩, .elapse 50, .up ⟨50, 10, 10⟩, .elapse 50, .down ⟨100, 12, 10⟩, .elapse 50,
    .up ⟨150, 12, 10⟩, .elapse 50, .down ⟨200, 10, 10⟩, .elapse 50, .up ⟨250, 10, 10⟩]

theorem clicks_kept_apart_doubleThenSingle :
    ∃ st, run (step defaults) .init doubleThenSingle = some st ∧ KeptApart st ∧
      st.doubleTaps = [1] ∧ st.singleTapUps = [1, 3] ∧ st.drained.singleClicks = [3] := by
  have ran : run (step defaults) .init doubleThenSingle =
      some ((run (step defaults) .init doubleThenSingle).get rfl) := (Option.some_get _).symm
  exact ⟨_, ran, (clicks_kept_apart_iff ran).2 rfl, rfl, rfl, rfl⟩

/-- A tap, and a double tap elsewhere soon after it: the click of the first tap is lost. -/
theorem clicks_not_kept_apart :
    ¬ ∀ (config : ViewConfiguration) (events : List Event) (st : State),
      run (step config) .init events = some st → KeptApart st := by
  intro claim
  have kept := claim defaults
    [.down ⟨0, 10, 10⟩, .elapse 50, .up ⟨50, 10, 10⟩, .elapse 50, .down ⟨100, 500, 500⟩, .elapse 50,
      .up ⟨150, 500, 500⟩, .elapse 50, .down ⟨200, 500, 500⟩] _ rfl
  have one := kept.other 1 (by decide) (by decide)
  exact absurd one (by decide)

end Apart

end CodeNotes.Gesture
