import CodeNotes.Lib.Run

/-!
# The simulated keyboard interrupt

`keyboard_isr`, `hardware_device_simulator` and `bottom_half_handler` of `interrupt/main.cpp` as
two threads that interleave step by step.  The buffer is guarded by `buffer_mutex`; the bottom half
waits on `buffer_cv`, and its wake-ups may be spurious.  `Inv` ties both program counters to the
mutex, the buffer and the scancodes produced so far; it is preserved by every step (`inv_step`), so
that no scancode is lost and the bottom half never sleeps on a non-empty buffer without a
notification on its way (`keyboard_safe`).
-/

namespace CodeNotes.Interrupt

open Run

inductive Thread where
  | device
  | bottomHalf
  deriving DecidableEq

/-- Where the device thread stands. -/
inductive DevicePc where
  /-- In `sleep_for`, before the next `keyboard_isr(scancode++)`. -/
  | sleeping
  /-- In `keyboard_isr`, before the lock guard. -/
  | locking (scancode : Int32)
  /-- Holds the mutex, before the push. -/
  | pushing (scancode : Int32)
  /-- Holds the mutex, at the end of the guarded block. -/
  | unlocking
  /-- Before `notify_one`. -/
  | notifying
  deriving DecidableEq

/-- Where the bottom half stands. -/
inductive BottomPc where
  /-- Before the `unique_lock`. -/
  | locking
  /-- Holds the mutex, about to test the predicate of `wait`. -/
  | testing
  /-- Blocked in `wait`, the mutex released. -/
  | blocked
  /-- Woken, before it has the mutex again. -/
  | relocking
  /-- Holds the mutex with the predicate true, before `front`. -/
  | reading
  /-- Before `pop`. -/
  | popping (scancode : Int32)
  /-- Before `lock.unlock`. -/
  | unlocking (scancode : Int32)
  /-- Before the scancode is passed on. -/
  | processing (scancode : Int32)
  deriving DecidableEq

structure State where
  /-- The device's local `scancode`. -/
  scancode : Int32
  device : DevicePc
  bottom : BottomPc
  keyboard_buffer : List Int32
  buffer_mutex : Option Thread
  /-- The scancodes the bottom half has passed on. -/
  processed : List Int32
  /-- The number of calls of `keyboard_isr`. -/
  interrupts : ℕ
  deriving DecidableEq

def init : State :=
  { scancode := 0, device := .sleeping, bottom := .locking, keyboard_buffer := []
    buffer_mutex := none, processed := [], interrupts := 0 }

inductive Event where
  | device
  | bottomHalf
  /-- A spurious wake-up of the bottom half. -/
  | spurious
  deriving DecidableEq

/-- `notify_one` reaches the bottom half only while it is blocked. -/
def notify_one : BottomPc → BottomPc
  | .blocked => .relocking
  | pc => pc

def deviceStep (s : State) : Option State :=
  match s.device with
  | .sleeping => some { s with
      device := .locking s.scancode, scancode := s.scancode + 1, interrupts := s.interrupts + 1 }
  | .locking scancode =>
      if s.buffer_mutex = none then
        some { s with device := .pushing scancode, buffer_mutex := some .device }
      else none
  | .pushing scancode => some { s with
      device := .unlocking, keyboard_buffer := s.keyboard_buffer ++ [scancode] }
  | .unlocking => some { s with device := .notifying, buffer_mutex := none }
  | .notifying => some { s with device := .sleeping, bottom := notify_one s.bottom }

def bottomStep (s : State) : Option State :=
  match s.bottom with
  | .locking | .relocking =>
      if s.buffer_mutex = none then
        some { s with bottom := .testing, buffer_mutex := some .bottomHalf }
      else none
  | .testing =>
      if s.keyboard_buffer = [] then some { s with bottom := .blocked, buffer_mutex := none }
      else some { s with bottom := .reading }
  | .blocked => none
  | .reading => s.keyboard_buffer.head?.map fun scancode => { s with bottom := .popping scancode }
  | .popping scancode => some { s with
      bottom := .unlocking scancode, keyboard_buffer := s.keyboard_buffer.tail }
  | .unlocking scancode => some { s with bottom := .processing scancode, buffer_mutex := none }
  | .processing scancode => some { s with
      bottom := .locking, processed := s.processed ++ [scancode] }

def step (s : State) : Event → Option State
  | .device => deviceStep s
  | .bottomHalf => bottomStep s
  | .spurious => if s.bottom = .blocked then some { s with bottom := .relocking } else none

/-- The scancode the bottom half has taken out of the buffer and not yet passed on. -/
def BottomPc.held : BottomPc → List Int32
  | .unlocking scancode | .processing scancode => [scancode]
  | _ => []

/-- The calls of `keyboard_isr` that have not reached their push. -/
def DevicePc.unpushed : DevicePc → ℕ
  | .locking _ | .pushing _ => 1
  | _ => 0

/-- A notification is still to be issued for what the device has pushed. -/
def DevicePc.notifies : DevicePc → Prop
  | .unlocking | .notifying => True
  | _ => False

def DevicePc.holds : DevicePc → Prop
  | .pushing _ | .unlocking => True
  | .sleeping | .locking _ | .notifying => False

def BottomPc.holds : BottomPc → Prop
  | .testing | .reading | .popping _ | .unlocking _ => True
  | _ => False

/-- The first `n` scancodes. -/
def scancodes (n : ℕ) : List Int32 := (List.range n).map Int32.ofNat

theorem scancodes_succ (n : ℕ) : scancodes (n + 1) = scancodes n ++ [Int32.ofNat n] := by
  simp [scancodes, List.range_succ]

/-- What holds between any two steps of the two threads. -/
structure Inv (s : State) : Prop where
  /-- Every call of `keyboard_isr` has pushed its scancode, except the one still before its push. -/
  counted : s.device.unpushed ≤ s.interrupts
  sequence : s.processed ++ s.bottom.held ++ s.keyboard_buffer =
    scancodes (s.interrupts - s.device.unpushed)
  next : s.scancode = Int32.ofNat s.interrupts
  argument : ∀ scancode, s.device = .locking scancode ∨ s.device = .pushing scancode →
    scancode = Int32.ofNat (s.interrupts - 1)
  deviceMutex : s.device.holds ↔ s.buffer_mutex = some .device
  bottomMutex : s.bottom.holds ↔ s.buffer_mutex = some .bottomHalf
  nonempty : s.bottom = .reading → s.keyboard_buffer ≠ []
  front : ∀ scancode, s.bottom = .popping scancode → s.keyboard_buffer.head? = some scancode
  /-- A bottom half that sleeps over a non-empty buffer has a notification on its way. -/
  awake : s.bottom = .blocked → s.keyboard_buffer ≠ [] → s.device.notifies

theorem inv_init : Inv init where
  counted := le_rfl
  sequence := rfl
  next := rfl
  argument := by rintro _ (h | h) <;> cases h
  deviceMutex := by simp [init, DevicePc.holds]
  bottomMutex := by simp [init, BottomPc.holds]
  nonempty := nofun
  front := nofun
  awake := nofun

theorem notify_one_held (pc : BottomPc) : (notify_one pc).held = pc.held := by cases pc <;> rfl

theorem notify_one_holds (pc : BottomPc) : (notify_one pc).holds ↔ pc.holds := by
  cases pc <;> rfl

theorem notify_one_ne_blocked (pc : BottomPc) : notify_one pc ≠ .blocked := by
  cases pc <;> simp [notify_one]

theorem notify_one_eq {pc pc' : BottomPc} (h : notify_one pc = pc') (woken : pc' ≠ .relocking) :
    pc = pc' := by
  cases pc
  case blocked => exact absurd h.symm woken
  all_goals exact h

theorem inv_deviceStep {s s' : State} (inv : Inv s) (stepped : deviceStep s = some s') :
    Inv s' := by
  obtain ⟨counted, sequence, next, argument, deviceMutex, bottomMutex, nonempty, front, awake⟩ :=
    inv
  unfold deviceStep at stepped
  cases pc : s.device with
  | sleeping =>
    rw [pc] at stepped counted sequence deviceMutex awake
    simp only [Option.some.injEq] at stepped
    subst stepped
    refine ⟨?_, ?_, ?_, ?_, ?_, bottomMutex, nonempty, front, ?_⟩
    · simp [DevicePc.unpushed]
    · simpa [DevicePc.unpushed] using sequence
    · simp only [next, Int32.ofNat_add]
      rfl
    · rintro scancode (h | h) <;> cases h
      simpa using next
    · simpa [DevicePc.holds] using deviceMutex
    · intro h hb
      exact (awake h hb).elim
  | locking scancode =>
    rw [pc] at stepped counted sequence awake
    have value := argument scancode (Or.inl pc)
    split_ifs at stepped with free
    rw [Option.some.injEq] at stepped
    subst stepped
    rw [free] at bottomMutex
    refine ⟨counted, sequence, next, ?_, ?_, ?_, nonempty, front, ?_⟩
    · rintro scancode' (h | h) <;> cases h
      exact value
    · simp [DevicePc.holds]
    · simpa using bottomMutex
    · intro h hb
      exact (awake h hb).elim
  | pushing scancode =>
    rw [pc] at stepped counted sequence deviceMutex
    have value := argument scancode (Or.inr pc)
    simp only [Option.some.injEq] at stepped
    subst stepped
    have hmutex : s.buffer_mutex = some .device := deviceMutex.1 trivial
    have idle : ¬ s.bottom.holds := by rw [bottomMutex, hmutex]; simp
    refine ⟨Nat.zero_le _, ?_, next, ?_, ?_, bottomMutex, ?_, ?_, fun _ _ => trivial⟩
    · have count : s.interrupts = s.interrupts - 1 + 1 := by
        change 1 ≤ s.interrupts at counted
        omega
      simp only [DevicePc.unpushed, Nat.sub_zero]
      rw [← List.append_assoc, sequence, count, scancodes_succ, value]
      rfl
    · rintro scancode' (h | h) <;> cases h
    · simp [DevicePc.holds, hmutex]
    · simp
    · intro scancode' h
      change s.bottom = .popping scancode' at h
      rw [h] at idle
      exact absurd trivial idle
  | unlocking =>
    rw [pc] at stepped counted sequence deviceMutex
    simp only [Option.some.injEq] at stepped
    subst stepped
    have hmutex : s.buffer_mutex = some .device := deviceMutex.1 trivial
    rw [hmutex] at bottomMutex
    refine ⟨counted, sequence, next, ?_, ?_, ?_, nonempty, front, fun _ _ => trivial⟩
    · rintro scancode' (h | h) <;> cases h
    · simp [DevicePc.holds]
    · simpa using bottomMutex
  | notifying =>
    rw [pc] at stepped counted sequence deviceMutex
    simp only [Option.some.injEq] at stepped
    subst stepped
    refine ⟨counted, ?_, next, ?_, deviceMutex, ?_, ?_, ?_, ?_⟩
    · rw [← notify_one_held] at sequence
      exact sequence
    · rintro scancode' (h | h) <;> cases h
    · rwa [notify_one_holds]
    · exact fun h => nonempty (notify_one_eq h nofun)
    · exact fun scancode' h => front scancode' (notify_one_eq h nofun)
    · exact fun h => absurd h (notify_one_ne_blocked _)

theorem inv_bottomStep {s s' : State} (inv : Inv s) (stepped : bottomStep s = some s') :
    Inv s' := by
  obtain ⟨counted, sequence, next, argument, deviceMutex, bottomMutex, nonempty, front, awake⟩ :=
    inv
  -- taking the free mutex leads to the test of the predicate
  have acquire (held : s.bottom.held = []) (free : s.buffer_mutex = none) :
      Inv { s with bottom := .testing, buffer_mutex := some .bottomHalf } := by
    refine ⟨counted, ?_, next, argument, ?_, ?_, nofun, nofun, nofun⟩
    · rw [← sequence, held]
      rfl
    · rw [free] at deviceMutex
      simpa using deviceMutex
    · simp [BottomPc.holds]
  have released (hmutex : s.buffer_mutex = some .bottomHalf) : ¬ s.device.holds := by
    rw [deviceMutex, hmutex]
    simp
  unfold bottomStep at stepped
  cases pc : s.bottom with
  | locking =>
    rw [pc] at stepped
    simp only at stepped
    split_ifs at stepped with free
    exact Option.some.inj stepped ▸ acquire (by rw [pc]; rfl) free
  | relocking =>
    rw [pc] at stepped
    simp only at stepped
    split_ifs at stepped with free
    exact Option.some.inj stepped ▸ acquire (by rw [pc]; rfl) free
  | testing =>
    rw [pc] at stepped sequence bottomMutex
    have hmutex := bottomMutex.1 trivial
    simp only at stepped
    split_ifs at stepped with empty
    · rw [Option.some.injEq] at stepped
      subst stepped
      refine ⟨counted, sequence, next, argument, ?_, ?_, nofun, nofun, ?_⟩
      · simpa using released hmutex
      · simp [BottomPc.holds]
      · exact fun _ h => absurd empty h
    · rw [Option.some.injEq] at stepped
      subst stepped
      exact ⟨counted, sequence, next, argument, deviceMutex, by simp [BottomPc.holds, hmutex],
        fun _ => empty, nofun, nofun⟩
  | blocked =>
    rw [pc] at stepped
    cases stepped
  | reading =>
    rw [pc] at stepped sequence bottomMutex
    have hmutex := bottomMutex.1 trivial
    obtain ⟨scancode, head, rfl⟩ := Option.map_eq_some_iff.1 stepped
    refine ⟨counted, sequence, next, argument, deviceMutex, by simp [BottomPc.holds, hmutex], nofun,
      ?_, nofun⟩
    intro scancode' h
    cases h
    exact head
  | popping scancode =>
    rw [pc] at stepped sequence bottomMutex
    have hmutex := bottomMutex.1 trivial
    have head := front scancode pc
    simp only [Option.some.injEq] at stepped
    subst stepped
    refine ⟨counted, ?_, next, argument, deviceMutex, ?_, nofun, nofun, nofun⟩
    · rw [← sequence, ← List.cons_head?_tail head]
      simp [BottomPc.held]
    · simp [BottomPc.holds, hmutex]
  | unlocking scancode =>
    rw [pc] at stepped sequence bottomMutex
    have hmutex := bottomMutex.1 trivial
    simp only [Option.some.injEq] at stepped
    subst stepped
    refine ⟨counted, sequence, next, argument, ?_, by simp [BottomPc.holds], nofun, nofun, nofun⟩
    simpa using released hmutex
  | processing scancode =>
    rw [pc] at stepped sequence bottomMutex
    simp only [Option.some.injEq] at stepped
    subst stepped
    refine ⟨counted, ?_, next, argument, deviceMutex, ?_, nofun, nofun, nofun⟩
    · rw [← sequence]
      simp [BottomPc.held]
    · simpa [BottomPc.holds] using bottomMutex

theorem inv_step {s s' : State} {e : Event} (inv : Inv s) (stepped : step s e = some s') :
    Inv s' := by
  cases e with
  | device => exact inv_deviceStep inv stepped
  | bottomHalf => exact inv_bottomStep inv stepped
  | spurious =>
    simp only [step] at stepped
    split_ifs at stepped with blocked
    rw [Option.some.injEq] at stepped
    subst stepped
    obtain ⟨counted, sequence, next, argument, deviceMutex, bottomMutex, -, -, -⟩ := inv
    rw [blocked] at sequence bottomMutex
    exact ⟨counted, sequence, next, argument, deviceMutex, bottomMutex, nofun, nofun, nofun⟩

theorem inv_run {s : State} {events : List Event} (ran : run step init events = some s) : Inv s :=
  run_invariant (fun _ _ _ inv stepped => inv_step inv stepped) inv_init ran

theorem toInt_scancodes {n : ℕ} (hn : n ≤ 2 ^ 31) :
    (scancodes n).map Int32.toInt = (List.range n).map fun i : ℕ => (i : ℤ) := by
  rw [scancodes, List.map_map]
  apply List.map_congr_left
  intro i hi
  exact Int32.toInt_ofNat_of_lt (by have := List.mem_range.1 hi; omega)

/-- In every interleaving of fewer than `2 ^ 31` interrupts: what the bottom half has processed,
what it holds and what is buffered are the scancodes pushed so far, in order; and it is never
blocked over a non-empty buffer with no notification to come. -/
theorem keyboard_safe {s : State} {events : List Event} (ran : run step init events = some s)
    (few : s.interrupts < 2 ^ 31) :
    (∃ n, n + s.device.unpushed = s.interrupts ∧
      (s.processed ++ s.bottom.held ++ s.keyboard_buffer).map Int32.toInt =
        (List.range n).map fun i : ℕ => (i : ℤ)) ∧
    ¬ (s.bottom = .blocked ∧ s.keyboard_buffer ≠ [] ∧ ¬ s.device.notifies) := by
  have inv := inv_run ran
  refine ⟨⟨s.interrupts - s.device.unpushed, Nat.sub_add_cancel inv.counted, ?_⟩, ?_⟩
  · rw [inv.sequence, toInt_scancodes (by omega)]
  · rintro ⟨blocked, nonempty, silent⟩
    exact silent (inv.awake blocked nonempty)

/-- The bottom half blocks on the empty buffer, the device pushes the first scancode, and the
bottom half is woken between the unlock and the notification. -/
theorem keyboard_safe_spurious : ∃ s : State,
    run step init [.bottomHalf, .bottomHalf, .device, .device, .device, .device, .spurious,
      .bottomHalf, .bottomHalf, .bottomHalf, .bottomHalf, .device] = some s ∧
    s.interrupts < 2 ^ 31 ∧
    (∃ n, n + s.device.unpushed = s.interrupts ∧
      (s.processed ++ s.bottom.held ++ s.keyboard_buffer).map Int32.toInt =
        (List.range n).map fun i : ℕ => (i : ℤ)) ∧
    ¬ (s.bottom = .blocked ∧ s.keyboard_buffer ≠ [] ∧ ¬ s.device.notifies) := by
  refine ⟨{ scancode := 1, device := .sleeping, bottom := .unlocking 0, keyboard_buffer := []
            buffer_mutex := some .bottomHalf, processed := [], interrupts := 1 }, ?_, ?_, ?_⟩
  · decide
  · decide
  · exact keyboard_safe (by decide : run step init [.bottomHalf, .bottomHalf, .device, .device,
      .device, .device, .spurious, .bottomHalf, .bottomHalf, .bottomHalf, .bottomHalf, .device] =
      some _) (by decide)

end CodeNotes.Interrupt
