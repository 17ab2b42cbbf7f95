import Mathlib.Tactic

/-!
# Message queues in order of time

A looper keeps its messages in the order in which they are due, and messages due at the same time in
the order in which they were posted.  `Queue.post` keeps that order; the queue's `tasks` change by a
permutation (`tasks_post`), and a task posted when every message of another kind is due no later
stays behind all of them (`Precedes.post`), so that it is not the next to run while one of them
is pending (`Precedes.next_notMem`).
-/

namespace CodeNotes.Looper

structure Message (α : Type) where
  due : ℕ
  what : α

variable {α : Type}

/-- Insert a message behind all those due no later. -/
def enqueue (message : Message α) : List (Message α) → List (Message α)
  | [] => [message]
  | m :: queue =>
    if message.due < m.due then message :: m :: queue else m :: enqueue message queue

theorem enqueue_perm (message : Message α) (queue : List (Message α)) :
    (enqueue message queue).Perm (message :: queue) := by
  induction queue with
  | nil => exact .rfl
  | cons m queue ih =>
    rw [enqueue]
    split_ifs
    · exact .rfl
    · exact (ih.cons m).trans (.swap message m queue)

/-- What holds between the messages of a queue in order holds after an insertion, if it holds
between the new message and those on either side of it. -/
theorem pairwise_enqueue {R : Message α → Message α → Prop} {message : Message α}
    {queue : List (Message α)} (sorted : queue.Pairwise fun m m' => m.due ≤ m'.due)
    (pairwise : queue.Pairwise R) (before : ∀ m ∈ queue, m.due ≤ message.due → R m message)
    (after : ∀ m ∈ queue, message.due < m.due → R message m) :
    (enqueue message queue).Pairwise R := by
  induction queue with
  | nil => exact List.pairwise_singleton R message
  | cons m queue ih =>
    obtain ⟨first, sorted⟩ := List.pairwise_cons.1 sorted
    obtain ⟨firstR, rest⟩ := List.pairwise_cons.1 pairwise
    rw [enqueue]
    split_ifs with early
    · refine List.pairwise_cons.2 ⟨fun m' mem => after m' mem ?_, pairwise⟩
      rcases List.mem_cons.1 mem with rfl | mem
      · exact early
      · exact lt_of_lt_of_le early (first m' mem)
    · refine List.pairwise_cons.2 ⟨fun m' mem => ?_, ?_⟩
      · rcases List.mem_cons.1 ((enqueue_perm message queue).subset mem) with rfl | mem
        · exact before m List.mem_cons_self (not_lt.1 early)
        · exact firstR m' mem
      · apply ih sorted rest
        · exact fun m' mem => before m' (List.mem_cons_of_mem m mem)
        · exact fun m' mem => after m' (List.mem_cons_of_mem m mem)

/-- Messages in order of the time they are due. -/
structure Queue (α : Type) where
  messages : List (Message α)
  sorted : messages.Pairwise fun m m' => m.due ≤ m'.due

namespace Queue

def empty : Queue α := ⟨[], .nil⟩

def post (queue : Queue α) (what : α) (due : ℕ) : Queue α where
  messages := enqueue ⟨due, what⟩ queue.messages
  sorted := pairwise_enqueue queue.sorted queue.sorted (fun _ _ h => h) (fun _ _ h => h.le)

/-- Remove every message of the given kinds. -/
def remove (queue : Queue α) (kind : α → Bool) : Queue α where
  messages := queue.messages.filter fun m => !kind m.what
  sorted := queue.sorted.filter _

/-- The task of the first message, if it is due, and the queue behind it. -/
def next (queue : Queue α) (now : ℕ) : Option (α × Queue α) :=
  match queue with
  | ⟨[], _⟩ => none
  | ⟨m :: messages, sorted⟩ =>
    if m.due ≤ now then some (m.what, ⟨messages, (List.pairwise_cons.1 sorted).2⟩) else none

def tasks (queue : Queue α) : List α := queue.messages.map Message.what

/-- Every message of the task is due by the time. -/
def DueBy (queue : Queue α) (what : α) (time : ℕ) : Prop :=
  ∀ m ∈ queue.messages, m.what = what → m.due ≤ time

/-- No message of the task `b` stands before one of `a`. -/
def Precedes (queue : Queue α) (a b : α) : Prop :=
  queue.messages.Pairwise fun m m' => m'.what = a → m.what ≠ b

variable {queue queue' : Queue α} {a b what : α} {due now time : ℕ}

theorem next_eq_some (h : queue.next now = some (what, queue')) :
    ∃ due ≤ now, queue.messages = ⟨due, what⟩ :: queue'.messages := by
  obtain ⟨_ | ⟨m, messages⟩, sorted⟩ := queue
  · cases h
  · rw [next] at h
    split_ifs at h with isDue
    cases h
    exact ⟨m.due, isDue, rfl⟩

/-! ### Tasks -/

theorem tasks_empty : (empty : Queue α).tasks = [] := rfl

theorem tasks_post (queue : Queue α) (what : α) (due : ℕ) :
    (queue.post what due).tasks.Perm (what :: queue.tasks) :=
  (enqueue_perm ⟨due, what⟩ queue.messages).map Message.what

theorem tasks_remove (queue : Queue α) (kind : α → Bool) :
    (queue.remove kind).tasks = queue.tasks.filter fun what => !kind what := by
  rw [tasks, tasks, List.filter_map]
  rfl

theorem tasks_next (h : queue.next now = some (what, queue')) :
    queue.tasks = what :: queue'.tasks := by
  obtain ⟨due, -, messages⟩ := next_eq_some h
  rw [tasks, messages]
  rfl

/-! ### Due times -/

theorem dueBy_of_notMem (absent : a ∉ queue.tasks) : queue.DueBy a time :=
  fun m mem what => absurd (List.mem_map.2 ⟨m, mem, what⟩) absent

theorem DueBy.mono (h : queue.DueBy a time) (later : time ≤ now) : queue.DueBy a now :=
  fun m mem what => (h m mem what).trans later

theorem DueBy.post (h : queue.DueBy a time) (isDue : what = a → due ≤ time) :
    (queue.post what due).DueBy a time := by
  intro m mem same
  rcases List.mem_cons.1 ((enqueue_perm _ _).subset mem) with rfl | mem
  · exact isDue same
  · exact h m mem same

theorem DueBy.remove (h : queue.DueBy a time) (kind : α → Bool) :
    (queue.remove kind).DueBy a time :=
  fun m mem => h m (List.mem_of_mem_filter mem)

theorem DueBy.next (h : queue.DueBy a time) (next : queue.next now = some (what, queue')) :
    queue'.DueBy a time := by
  obtain ⟨due, -, messages⟩ := next_eq_some next
  intro m mem
  exact h m (messages ▸ List.mem_cons_of_mem _ mem)

/-! ### Order -/

theorem precedes_of_notMem (absent : b ∉ queue.tasks) : queue.Precedes a b := by
  apply List.Pairwise.imp_of_mem _ queue.sorted
  intro m m' mem _ _ _ same
  exact absent (List.mem_map.2 ⟨m, mem, same⟩)

theorem Precedes.post (h : queue.Precedes a b) (other : what ≠ a)
    (late : what = b → queue.DueBy a due) : (queue.post what due).Precedes a b := by
  apply pairwise_enqueue queue.sorted h
  · exact fun _ _ _ same => absurd same other
  · intro m mem early same isB
    exact absurd (late isB m mem same) (not_le.2 early)

theorem Precedes.remove (h : queue.Precedes a b) (kind : α → Bool) :
    (queue.remove kind).Precedes a b :=
  h.filter _

theorem Precedes.next (h : queue.Precedes a b) (next : queue.next now = some (what, queue')) :
    queue'.Precedes a b := by
  obtain ⟨due, -, messages⟩ := next_eq_some next
  rw [Precedes, messages] at h
  exact (List.pairwise_cons.1 h).2

theorem Precedes.next_notMem (h : queue.Precedes a b) (next : queue.next now = some (b, queue')) :
    a ∉ queue'.tasks := by
  obtain ⟨due, -, messages⟩ := next_eq_some next
  rw [Precedes, messages] at h
  intro mem
  obtain ⟨m, mem, same⟩ := List.mem_map.1 mem
  exact (List.pairwise_cons.1 h).1 m mem same rfl

end Queue

end CodeNotes.Looper
