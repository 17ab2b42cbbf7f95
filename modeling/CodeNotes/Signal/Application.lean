import CodeNotes.Signal.Manager

/-!
# Failed signal operations

A call of the manager as a whole: what it returns and what it makes of the two tables, for every
answer that `std::signal` may give to it.  A call that is walked through step by step, with
deliveries in between, comes to the same (`call_completes`), and can come to each of its outcomes
(`exists_walk`).  `Application::initialize` registers its new handler for `SIGINT` and then for
`SIGTERM`.

`registerSignal` takes its entry back by erasing it, so that a failed call leaves the tables as they
were unless the signal had an entry before; `initialize` does not take back its first registration
when the second one fails (`failed_unchanged_iff`).
-/

namespace CodeNotes.Signal

open Run

variable {H : Type}

/-! ### Whole calls -/

/-- The manager's map and the process's signal dispositions. -/
@[ext]
structure Tables (H : Type) where
  m_handlers : Handlers H
  disposition : Int32 → Disposition

namespace Tables

/-- `std::signal(signal, d)`. -/
def setSignal (t : Tables H) (answer : Bool) (signal : Int32) (d : Disposition) : Tables H :=
  if answer then { t with disposition := Function.update t.disposition signal d } else t

def store (t : Tables H) (signal : Int32) (handler : H) : Tables H :=
  { t with m_handlers := t.m_handlers.insert signal (some handler) }

def erase (t : Tables H) (signal : Int32) : Tables H :=
  { t with m_handlers := t.m_handlers.erase signal }

def registerSignal (t : Tables H) (signal : Int32) (handler : Option H) (answer : Bool) :
    Bool × Tables H :=
  match handler with
  | none => (false, t)
  | some handler =>
    let t := (t.store signal handler).setSignal answer signal .internalSignalHandler
    if answer then (true, t) else (false, t.erase signal)

def unregisterSignal (t : Tables H) (signal : Int32) (answer : Bool) : Bool × Tables H :=
  if signal ∈ t.m_handlers then
    let t := t.setSignal answer signal .SIG_DFL
    if answer then (true, t.erase signal) else (false, t)
  else (false, t)

/-- The loop of `clearAllSignals`. -/
def resetAll (t : Tables H) (answer : Int32 → Bool) (order : List Int32) : Tables H :=
  order.foldl (fun t signal => t.setSignal (answer signal) signal .SIG_DFL) t

def clearAllSignals (t : Tables H) (order : List Int32) (answer : Int32 → Bool) : Tables H :=
  { t.resetAll answer order with m_handlers := ∅ }

/-- A call with the answers of `std::signal`, which no call asks twice for the same signal. -/
def call (t : Tables H) (answer : Int32 → Bool) : Call H → Option (Option Bool × Tables H)
  | .registerSignal signal handler =>
    let returned := t.registerSignal signal handler (answer signal)
    some (some returned.1, returned.2)
  | .unregisterSignal signal =>
    let returned := t.unregisterSignal signal (answer signal)
    some (some returned.1, returned.2)
  | .clearAllSignals order =>
    if order.Nodup ∧ order.toFinset = t.m_handlers.keys then
      some (none, t.clearAllSignals order answer)
    else none

end Tables

/-! ### Calls step by step -/

def State.tables (st : State H) : Tables H := ⟨st.m_handlers, st.disposition⟩

@[simp] theorem State.tables_m_handlers (st : State H) : st.tables.m_handlers = st.m_handlers := rfl

/-- A step of a call under way, or a delivery during it. -/
inductive Inner where
  | advance (answer : Bool)
  | deliver (signal : Int32)

/-- One inner step; every call of `std::signal` may succeed or fail. -/
def inner (st : State H) : Inner → Option (State H)
  | .advance answer => st.advance answer
  | .deliver signal =>
    if st.disposition signal = .internalSignalHandler then some (st.internalSignalHandler signal)
    else none

/-- What the program point says of the call `c` that found the tables `t`. -/
def During (t : Tables H) (c : Call H) (st : State H) : Prop :=
  match st.pc with
  | .idle => ∃ answer, t.call answer c = some (st.returned, st.tables)
  | .storing signal handler => c = .registerSignal signal (some handler) ∧ st.tables = t
  | .installing signal | .withdrawing signal =>
    ∃ handler, c = .registerSignal signal (some handler) ∧ st.tables = t.store signal handler
  | .uninstalling signal =>
    c = .unregisterSignal signal ∧ signal ∈ t.m_handlers ∧ st.tables = t
  | .erasing signal =>
    c = .unregisterSignal signal ∧ signal ∈ t.m_handlers ∧
      st.tables = t.setSignal true signal .SIG_DFL
  | .clearing rest => ∃ done answer, c = .clearAllSignals (done ++ rest) ∧ (done ++ rest).Nodup ∧
      (done ++ rest).toFinset = t.m_handlers.keys ∧ st.tables = t.resetAll answer done

theorem during_call {st st' : State H} {c : Call H} (called : st.call c = some st') :
    During st.tables c st' := by
  cases c with
  | registerSignal signal handler =>
    cases handler with
    | none =>
      cases called
      exact ⟨fun _ => true, rfl⟩
    | some handler =>
      cases called
      exact ⟨rfl, rfl⟩
  | unregisterSignal signal =>
    rw [State.call] at called
    split_ifs at called with registered
    · cases called
      exact ⟨rfl, registered, rfl⟩
    · cases called
      refine ⟨fun _ => true, ?_⟩
      rw [Tables.call, Tables.unregisterSignal, State.tables_m_handlers, if_neg registered]
      rfl
  | clearAllSignals order =>
    rw [State.call] at called
    split_ifs at called with all
    cases called
    exact ⟨[], fun _ => true, rfl, all.1, all.2, rfl⟩

theorem resetAll_congr {t : Tables H} {answer answer' : Int32 → Bool} {order : List Int32}
    (same : ∀ signal ∈ order, answer signal = answer' signal) :
    t.resetAll answer order = t.resetAll answer' order := by
  apply List.foldl_ext
  intro t signal mem
  rw [same signal mem]

theorem resetAll_concat (t : Tables H) (answer : Int32 → Bool) (order : List Int32)
    (signal : Int32) :
    t.resetAll answer (order ++ [signal]) =
      (t.resetAll answer order).setSignal (answer signal) signal .SIG_DFL := by
  rw [Tables.resetAll, List.foldl_append]
  rfl

theorem during_inner {t : Tables H} {c : Call H} {st st' : State H} {e : Inner}
    (during : During t c st) (stepped : inner st e = some st') : During t c st' := by
  cases e with
  | deliver signal =>
    rw [inner] at stepped
    split_ifs at stepped
    cases stepped
    unfold State.internalSignalHandler
    split
    · exact during
    · exact during
  | advance answer =>
    rw [inner] at stepped
    unfold State.advance at stepped
    unfold During at during
    cases point : st.pc with
    | idle =>
      rw [point] at stepped
      cases stepped
    | storing signal handler =>
      simp only [point] at stepped during
      obtain ⟨rfl, same⟩ := during
      cases stepped
      refine ⟨handler, rfl, ?_⟩
      rw [← same]
      rfl
    | installing signal =>
      simp only [point] at stepped during
      obtain ⟨handler, rfl, same⟩ := during
      cases answer with
      | true =>
        cases stepped
        refine ⟨fun _ => true, ?_⟩
        rw [Tables.call, Tables.registerSignal, ← same]
        rfl
      | false =>
        cases stepped
        exact ⟨handler, rfl, same⟩
    | withdrawing signal =>
      simp only [point] at stepped during
      obtain ⟨handler, rfl, same⟩ := during
      cases stepped
      refine ⟨fun _ => false, ?_⟩
      rw [Tables.call, Tables.registerSignal, ← same]
      rfl
    | uninstalling signal =>
      simp only [point] at stepped during
      obtain ⟨rfl, registered, same⟩ := during
      cases answer with
      | true =>
        cases stepped
        refine ⟨rfl, registered, ?_⟩
        rw [← same]
        rfl
      | false =>
        cases stepped
        refine ⟨fun _ => false, ?_⟩
        rw [Tables.call, Tables.unregisterSignal, if_pos registered, ← same]
        rfl
    | erasing signal =>
      simp only [point] at stepped during
      obtain ⟨rfl, registered, same⟩ := during
      cases stepped
      refine ⟨fun _ => true, ?_⟩
      rw [Tables.call, Tables.unregisterSignal, if_pos registered, ← same]
      rfl
    | clearing rest =>
      simp only [point] at stepped during
      obtain ⟨done, answers, rfl, nodup, all, same⟩ := during
      cases rest with
      | nil =>
        cases stepped
        rw [List.append_nil] at nodup all
        refine ⟨answers, ?_⟩
        rw [List.append_nil, Tables.call, if_pos ⟨nodup, all⟩, Tables.clearAllSignals, ← same]
        rfl
      | cons signal rest =>
        cases stepped
        have fresh : ∀ s ∈ done, answers s = Function.update answers signal answer s := by
          intro s mem
          have ne : s ≠ signal := by
            rintro rfl
            exact List.disjoint_of_nodup_append nodup mem List.mem_cons_self
          rw [Function.update_of_ne ne]
        refine ⟨done ++ [signal], Function.update answers signal answer, ?_, ?_, ?_, ?_⟩
        · rw [List.append_assoc]
          rfl
        · rwa [List.append_assoc]
        · rwa [List.append_assoc]
        · rw [resetAll_concat, ← resetAll_congr fresh, ← same, Function.update_self]
          cases answer <;> rfl

/-- **A call that is walked through to its end, whatever is delivered on the way and however
`std::signal` answers, is a call as a whole.** -/
theorem call_completes {st st₁ st' : State H} {c : Call H} {inners : List Inner}
    (called : st.call c = some st₁) (ran : run inner st₁ inners = some st')
    (ended : st'.pc = .idle) :
    ∃ answer, st.tables.call answer c = some (st'.returned, st'.tables) := by
  have during : During st.tables c st' :=
    run_invariant (fun _ _ _ during stepped => during_inner during stepped) (during_call called) ran
  unfold During at during
  rwa [ended] at during

/-- The loop of `clearAllSignals` runs to its end. -/
theorem clearing_completes (answer : Int32 → Bool) {st : State H} {rest : List Int32}
    (clearing : st.pc = .clearing rest) :
    ∃ inners st', run inner st inners = some st' ∧ st'.pc = .idle ∧ st'.returned = none ∧
      st'.tables = st.tables.clearAllSignals rest answer := by
  induction rest generalizing st with
  | nil =>
    refine ⟨[.advance true], { st with m_handlers := ∅ }.finish none, ?_, rfl, rfl, rfl⟩
    rw [run_cons, inner, State.advance, clearing]
    rfl
  | cons signal rest ih =>
    obtain ⟨inners, st', ran, idle, returned, tables⟩ := @ih
      { st.setSignal (answer signal) signal .SIG_DFL with pc := .clearing rest } rfl
    refine ⟨.advance (answer signal) :: inners, st', ?_, idle, returned, ?_⟩
    · rw [run_cons, inner, State.advance, clearing]
      exact ran
    · rw [tables, Tables.clearAllSignals, Tables.clearAllSignals, Tables.resetAll, Tables.resetAll,
        List.foldl_cons]
      cases answer signal <;> rfl

/-- Every call can be walked through, and comes to each of its outcomes. -/
theorem exists_walk (answer : Int32 → Bool) {st st₁ : State H} {c : Call H}
    (called : st.call c = some st₁) :
    ∃ inners st', run inner st₁ inners = some st' ∧ st'.pc = .idle ∧
      st.tables.call answer c = some (st'.returned, st'.tables) := by
  cases c with
  | registerSignal signal handler =>
    cases handler with
    | none =>
      cases called
      exact ⟨[], _, rfl, rfl, rfl⟩
    | some handler =>
      cases called
      rw [Tables.call]
      cases answer signal with
      | true => exact ⟨[.advance true, .advance true], _, rfl, rfl, rfl⟩
      | false => exact ⟨[.advance true, .advance false, .advance true], _, rfl, rfl, rfl⟩
  | unregisterSignal signal =>
    rw [State.call] at called
    rw [Tables.call, Tables.unregisterSignal, State.tables_m_handlers]
    split_ifs at called with registered
    · cases called
      rw [if_pos registered]
      cases answer signal with
      | true => exact ⟨[.advance true, .advance true], _, rfl, rfl, rfl⟩
      | false => exact ⟨[.advance false], _, rfl, rfl, rfl⟩
    · cases called
      rw [if_neg registered]
      exact ⟨[], _, rfl, rfl, rfl⟩
  | clearAllSignals order =>
    rw [State.call] at called
    split_ifs at called with all
    cases called
    obtain ⟨inners, st', ran, idle, returned, tables⟩ :=
      clearing_completes answer (rfl : ({ st with pc := .clearing order } : State H).pc = _)
    refine ⟨inners, st', ran, idle, ?_⟩
    rw [Tables.call, State.tables_m_handlers, if_pos all, returned, tables]
    rfl

/-! ### The application -/

def SIGINT : Int32 := 2

def SIGTERM : Int32 := 15

structure Process (H : Type) where
  tables : Tables H
  m_signalHandler : Option H

namespace Process

def init (disposition : Int32 → Disposition) : Process H where
  tables := ⟨∅, disposition⟩
  m_signalHandler := none

def setupSignalHandlers (p : Process H) (answer : Int32 → Bool) : Bool × Process H :=
  let first := p.tables.registerSignal SIGINT p.m_signalHandler (answer SIGINT)
  if first.1 then
    let second := first.2.registerSignal SIGTERM p.m_signalHandler (answer SIGTERM)
    (second.1, { p with tables := second.2 })
  else (false, { p with tables := first.2 })

/-- `initialize`, with the handler that `std::make_shared` makes. -/
def initializeApplication (p : Process H) (handler : H) (answer : Int32 → Bool) :
    Bool × Process H :=
  { p with m_signalHandler := some handler }.setupSignalHandlers answer

end Process

/-- An operation with the answers of `std::signal` to it. -/
inductive Operation (H : Type) where
  | manage (c : Call H) (answer : Int32 → Bool)
  | initializeApplication (handler : H) (answer : Int32 → Bool)

/-- What the operation returns (`none` for `void`) and leaves.  A new handler is none of those that
the map holds. -/
def perform [DecidableEq H] (p : Process H) : Operation H → Option (Option Bool × Process H)
  | .manage c answer =>
    (p.tables.call answer c).map fun returned => (returned.1, { p with tables := returned.2 })
  | .initializeApplication handler answer =>
    if ∀ entry ∈ p.tables.m_handlers.entries, entry.2 ≠ some handler then
      let returned := p.initializeApplication handler answer
      some (some returned.1, returned.2)
    else none

/-- The operation does not fail where it cannot undo what it did: `registerSignal` on a signal that
has an entry, `initialize` likewise at `SIGINT`, and anywhere at `SIGTERM`. -/
def Undoable (p : Process H) : Operation H → Prop
  | .manage (.registerSignal signal handler) answer =>
    handler = none ∨ answer signal = true ∨ signal ∉ p.tables.m_handlers
  | .manage _ _ => True
  | .initializeApplication _ answer =>
    if answer SIGINT = true then answer SIGTERM = true else SIGINT ∉ p.tables.m_handlers

theorem erase_store_eq_iff (t : Tables H) (signal : Int32) (handler : H) :
    (t.store signal handler).erase signal = t ↔ signal ∉ t.m_handlers := by
  constructor
  · intro same
    rw [← same]
    exact Finmap.notMem_erase_self
  · intro absent
    apply Tables.ext
    · apply Finmap.ext_lookup
      intro s
      by_cases at_signal : s = signal
      · subst at_signal
        rw [Finmap.lookup_eq_none.2 absent]
        exact Finmap.lookup_erase s _
      · exact (Finmap.lookup_erase_ne at_signal).trans (Finmap.lookup_insert_of_ne _ at_signal)
    · rfl

theorem registerSignal_unchanged_iff (t : Tables H) (signal : Int32) (handler : Option H)
    (answer : Bool) :
    ((t.registerSignal signal handler answer).1 = false →
        (t.registerSignal signal handler answer).2 = t) ↔
      handler = none ∨ answer = true ∨ signal ∉ t.m_handlers := by
  cases handler with
  | none => exact iff_of_true (fun _ => rfl) (Or.inl rfl)
  | some handler =>
    cases answer with
    | true => exact iff_of_true (fun failed => absurd failed Bool.noConfusion) (by simp)
    | false =>
      have refused : t.registerSignal signal (some handler) false =
          (false, (t.store signal handler).erase signal) := rfl
      rw [refused, erase_store_eq_iff]
      simp

theorem unregisterSignal_unchanged (t : Tables H) (signal : Int32) (answer : Bool)
    (failed : (t.unregisterSignal signal answer).1 = false) :
    (t.unregisterSignal signal answer).2 = t := by
  unfold Tables.unregisterSignal at failed ⊢
  by_cases registered : signal ∈ t.m_handlers
  · rw [if_pos registered] at failed ⊢
    cases answer with
    | true => cases failed
    | false => rfl
  · rw [if_neg registered]

/-- With `SIGINT` registered and `SIGTERM` refused the new handler is in the map. -/
theorem lookup_SIGINT_of_refused (t : Tables H) (handler : H) :
    (((t.store SIGINT handler).setSignal true SIGINT .internalSignalHandler).registerSignal SIGTERM
      (some handler) false).2.m_handlers.lookup SIGINT = some (some handler) := by
  have other : SIGINT ≠ SIGTERM := by decide
  calc
    _ = ((t.m_handlers.insert SIGINT (some handler)).insert SIGTERM (some handler)).lookup SIGINT :=
        Finmap.lookup_erase_ne other
    _ = (t.m_handlers.insert SIGINT (some handler)).lookup SIGINT :=
        Finmap.lookup_insert_of_ne _ other
    _ = some (some handler) := Finmap.lookup_insert _

theorem initializeApplication_unchanged_iff {p : Process H} {handler : H} (answer : Int32 → Bool)
    (fresh : ∀ entry ∈ p.tables.m_handlers.entries, entry.2 ≠ some handler) :
    ((p.initializeApplication handler answer).1 = false →
        (p.initializeApplication handler answer).2.tables = p.tables) ↔
      if answer SIGINT = true then answer SIGTERM = true else SIGINT ∉ p.tables.m_handlers := by
  unfold Process.initializeApplication Process.setupSignalHandlers
  cases first : answer SIGINT with
  | false =>
    rw [if_neg Bool.false_ne_true]
    exact (registerSignal_unchanged_iff p.tables SIGINT (some handler) false).trans (by simp)
  | true =>
    cases second : answer SIGTERM with
    | true => exact iff_of_true (fun failed => absurd failed Bool.noConfusion) rfl
    | false =>
      refine iff_of_false (fun unchanged => ?_) Bool.noConfusion
      have same := unchanged rfl
      have stored := lookup_SIGINT_of_refused p.tables handler
      have entry : p.tables.m_handlers.lookup SIGINT = some (some handler) := by
        rw [← same]
        exact stored
      exact fresh _ (Finmap.mem_lookup_iff.1 entry) rfl

/-- **An operation that returns `false` leaves the map and every disposition as they were, exactly
if it is undoable.** -/
theorem failed_unchanged_iff [DecidableEq H] {p p' : Process H} {op : Operation H}
    {result : Option Bool} (performed : perform p op = some (result, p')) :
    (result = some false → p'.tables = p.tables) ↔ Undoable p op := by
  cases op with
  | manage c answer =>
    cases c with
    | registerSignal signal handler =>
      cases performed
      rw [Option.some_inj]
      exact registerSignal_unchanged_iff p.tables signal handler (answer signal)
    | unregisterSignal signal =>
      cases performed
      rw [Option.some_inj]
      exact iff_of_true (unregisterSignal_unchanged p.tables signal (answer signal)) trivial
    | clearAllSignals order =>
      rw [perform, Tables.call] at performed
      split_ifs at performed
      · cases performed
        exact iff_of_true (by simp) trivial
      · cases performed
  | initializeApplication handler answer =>
    rw [perform] at performed
    split_ifs at performed with fresh
    cases performed
    rw [Option.some_inj]
    exact initializeApplication_unchanged_iff answer fresh

/-- The process after the operation. -/
def operate [DecidableEq H] (p : Process H) (op : Operation H) : Option (Process H) :=
  (perform p op).map Prod.snd

/-- `initialize` succeeds, and `unregisterSignal(SIGINT)` is refused. -/
theorem failed_unregister_unchanged :
    ∃ p p' : Process ℕ,
      run operate (.init fun _ => .SIG_DFL) [.initializeApplication 7 fun _ => true] = some p ∧
      perform p (.manage (.unregisterSignal SIGINT) fun _ => false) = some (some false, p') ∧
      p'.tables = p.tables := by
  have performed : perform
      ((Process.init fun _ => .SIG_DFL).initializeApplication 7 fun _ => true).2
      (.manage (.unregisterSignal SIGINT) fun _ => false) = some (some false, _) := rfl
  exact ⟨_, _, rfl, performed, (failed_unchanged_iff performed).2 trivial rfl⟩

/-- A second registration of `SIGINT` that is refused erases the entry of the first, though its
disposition stays. -/
theorem failed_not_unchanged :
    ¬ ∀ (disposition : Int32 → Disposition) (ops : List (Operation ℕ)) (p p' : Process ℕ)
      (op : Operation ℕ), run operate (.init disposition) ops = some p →
        perform p op = some (some false, p') → p'.tables = p.tables := by
  intro claim
  have same := claim (fun _ => .SIG_DFL)
    [.manage (.registerSignal SIGINT (some 7)) fun _ => true] _ _
    (.manage (.registerSignal SIGINT (some 8)) fun _ => false) rfl rfl
  have entry := congrArg (fun t => t.m_handlers.lookup SIGINT) same
  exact absurd entry (by decide)

end CodeNotes.Signal
