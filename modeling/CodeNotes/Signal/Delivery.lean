import CodeNotes.Signal.Manager

/-!
# A delivered signal finds its handler

`registerSignal` fills the map before it installs the handler, `unregisterSignal` and
`clearAllSignals` reset the dispositions before they empty the map.  So in every intermediate state
each signal with the manager's disposition has a handler (`Inv.registered`, `Inv.nonnull`), and the
entries that have one without the disposition are those of the call under way (`Pc.Loose`).
-/

namespace CodeNotes.Signal

open Run

variable {H : Type} {succeeds : Int32 → Bool}

/-- The entries that may be in the map without the manager's disposition. -/
def Pc.Loose : Pc H → Int32 → Prop
  | .idle | .storing _ _ | .uninstalling _ => fun _ => False
  | .installing signal | .withdrawing signal | .erasing signal => fun s => s = signal
  | .clearing rest => fun s => s ∉ rest

/-- What the program point itself knows. -/
def Pc.Knows (succeeds : Int32 → Bool) (st : State H) : Pc H → Prop
  | .idle | .storing _ _ | .uninstalling _ => True
  | .installing signal => signal ∈ st.m_handlers
  | .withdrawing signal => succeeds signal = false
  | .erasing signal => st.disposition signal ≠ .internalSignalHandler
  | .clearing rest => rest.Nodup ∧ ∀ s, st.disposition s = .internalSignalHandler → s ∈ rest

/-- What holds between any two steps. -/
structure Inv (succeeds : Int32 → Bool) (st : State H) : Prop where
  nonnull : ∀ s, st.m_handlers.lookup s ≠ some none
  registered : ∀ s, st.disposition s = .internalSignalHandler → s ∈ st.m_handlers
  installable : ∀ s, st.disposition s = .internalSignalHandler → succeeds s = true
  coupled : ∀ s ∈ st.m_handlers, ¬ st.pc.Loose s → st.disposition s = .internalSignalHandler
  knows : st.pc.Knows succeeds st
  unwarned : st.warned = []

theorem inv_init {disposition : Int32 → Disposition}
    (fresh : ∀ s, disposition s ≠ .internalSignalHandler) :
    Inv succeeds (State.init disposition : State H) where
  nonnull := by simp [State.init]
  registered := fun s h => absurd h (fresh s)
  installable := fun s h => absurd h (fresh s)
  coupled := fun s h => absurd h Finmap.notMem_empty
  knows := trivial
  unwarned := rfl

/-- Where the manager's disposition is installed there is a handler. -/
theorem Inv.handler {st : State H} (inv : Inv succeeds st) {s : Int32}
    (installed : st.disposition s = .internalSignalHandler) :
    ∃ handler, st.m_handlers.lookup s = some (some handler) := by
  obtain ⟨entry, found⟩ := Finmap.mem_iff.1 (inv.registered s installed)
  cases entry with
  | none => exact absurd found (inv.nonnull s)
  | some handler => exact ⟨handler, found⟩

theorem setSignal_default_iff (st : State H) (signal s : Int32) :
    (st.setSignal true signal .SIG_DFL).disposition s = .internalSignalHandler ↔
      s ≠ signal ∧ st.disposition s = .internalSignalHandler := by
  by_cases hs : s = signal
  · subst hs
    simp [State.setSignal]
  · simp [State.setSignal, hs]

/-- A reset installs the manager's handler nowhere. -/
theorem forall_setSignal_default {st : State H} {P : Int32 → Prop} (signal : Int32)
    (holds : ∀ s, st.disposition s = .internalSignalHandler → P s) :
    ∀ s, (st.setSignal true signal .SIG_DFL).disposition s = .internalSignalHandler → P s :=
  fun s installed => holds s ((setSignal_default_iff st signal s).1 installed).2

theorem setSignal_internal_iff (st : State H) (signal s : Int32) :
    (st.setSignal true signal .internalSignalHandler).disposition s = .internalSignalHandler ↔
      s = signal ∨ st.disposition s = .internalSignalHandler := by
  by_cases hs : s = signal
  · subst hs
    simp [State.setSignal]
  · simp [State.setSignal, hs]

/-! ### Steps -/

/-- A call only moves the program point, or returns at once. -/
theorem inv_call {st st' : State H} {c : Call H} (inv : Inv succeeds st) (idle : st.pc = .idle)
    (called : st.call c = some st') : Inv succeeds st' := by
  obtain ⟨nonnull, registered, installable, coupled, -, unwarned⟩ := inv
  rw [idle] at coupled
  cases c with
  | registerSignal signal handler =>
    cases handler with
    | none =>
      cases called
      exact ⟨nonnull, registered, installable, coupled, trivial, unwarned⟩
    | some handler =>
      cases called
      exact ⟨nonnull, registered, installable, coupled, trivial, unwarned⟩
  | unregisterSignal signal =>
    simp only [State.call] at called
    split_ifs at called <;> cases called <;>
      exact ⟨nonnull, registered, installable, coupled, trivial, unwarned⟩
  | clearAllSignals order =>
    simp only [State.call] at called
    split_ifs at called with all
    cases called
    have mem (s : Int32) : s ∈ order ↔ s ∈ st.m_handlers := by
      rw [← List.mem_toFinset, all.2, Finmap.mem_keys]
    refine ⟨nonnull, registered, installable, ?_, ?_, unwarned⟩
    · exact fun s hs _ => coupled s hs id
    · exact ⟨all.1, fun s installed => (mem s).2 (registered s installed)⟩

/-- Removing an entry whose disposition is not the manager's. -/
theorem inv_erase {st : State H} {signal : Int32} {result : Option Bool}
    (inv : Inv succeeds st) (loose : ∀ s, st.pc.Loose s → s = signal)
    (uninstalled : st.disposition signal ≠ .internalSignalHandler) :
    Inv succeeds ({ st with m_handlers := st.m_handlers.erase signal }.finish result) := by
  obtain ⟨nonnull, registered, installable, coupled, -, unwarned⟩ := inv
  refine ⟨?_, ?_, installable, ?_, trivial, unwarned⟩
  · intro s
    by_cases hs : s = signal
    · subst hs
      simp [State.finish]
    · simpa [State.finish, Finmap.lookup_erase_ne hs] using nonnull s
  · intro s installed
    have hs : s ≠ signal := by
      rintro rfl
      exact uninstalled installed
    exact Finmap.mem_erase.2 ⟨hs, registered s installed⟩
  · intro s hs _
    obtain ⟨ne, hs⟩ := Finmap.mem_erase.1 hs
    exact coupled s hs fun h => ne (loose s h)

theorem inv_advance {st st' : State H} (inv : Inv succeeds st)
    (advanced : st.advance (succeeds st.pc.signal) = some st') : Inv succeeds st' := by
  have whole := inv
  obtain ⟨nonnull, registered, installable, coupled, knows, unwarned⟩ := inv
  unfold State.advance at advanced
  cases hpc : st.pc with
  | idle =>
    rw [hpc] at advanced
    cases advanced
  | storing signal handler =>
    rw [hpc] at advanced coupled
    cases advanced
    refine ⟨?_, ?_, installable, ?_, Finmap.mem_insert.2 (Or.inl rfl), unwarned⟩
    · intro s
      by_cases hs : s = signal
      · subst hs
        simp
      · simpa [Finmap.lookup_insert_of_ne _ hs] using nonnull s
    · exact fun s installed => Finmap.mem_insert.2 (Or.inr (registered s installed))
    · intro s hs tight
      exact coupled s ((Finmap.mem_insert.1 hs).resolve_left tight) id
  | installing signal =>
    rw [hpc] at advanced coupled knows
    cases outcome : succeeds signal with
    | true =>
      simp only [Pc.signal, outcome, if_true, Option.some.injEq] at advanced
      subst advanced
      refine ⟨nonnull, ?_, ?_, ?_, trivial, unwarned⟩
      · intro s installed
        rcases (setSignal_internal_iff st signal s).1 installed with rfl | installed
        · exact knows
        · exact registered s installed
      · intro s installed
        rcases (setSignal_internal_iff st signal s).1 installed with rfl | installed
        · exact outcome
        · exact installable s installed
      · intro s hs _
        apply (setSignal_internal_iff st signal s).2
        by_cases hsig : s = signal
        · exact Or.inl hsig
        · exact Or.inr (coupled s hs hsig)
    | false =>
      simp only [Pc.signal, outcome, Bool.false_eq_true, if_false, Option.some.injEq] at advanced
      subst advanced
      exact ⟨nonnull, registered, installable, coupled, outcome, unwarned⟩
  | withdrawing signal =>
    rw [hpc] at advanced knows
    cases advanced
    apply inv_erase whole
    · rw [hpc]
      exact fun s h => h
    · intro installed
      have h := installable signal installed
      rw [show succeeds signal = false from knows] at h
      cases h
  | uninstalling signal =>
    rw [hpc] at advanced coupled
    cases outcome : succeeds signal with
    | true =>
      simp only [Pc.signal, outcome, if_true, Option.some.injEq] at advanced
      subst advanced
      refine ⟨nonnull, forall_setSignal_default signal registered,
        forall_setSignal_default signal installable, ?_, ?_, unwarned⟩
      · exact fun s hs tight => (setSignal_default_iff st signal s).2 ⟨tight, coupled s hs id⟩
      · exact fun installed => ((setSignal_default_iff st signal signal).1 installed).1 rfl
    | false =>
      simp only [Pc.signal, outcome, Bool.false_eq_true, if_false, Option.some.injEq] at advanced
      subst advanced
      exact ⟨nonnull, registered, installable, coupled, trivial, unwarned⟩
  | erasing signal =>
    rw [hpc] at advanced knows
    cases advanced
    apply inv_erase whole
    · rw [hpc]
      exact fun s h => h
    · exact knows
  | clearing rest =>
    rw [hpc] at advanced coupled knows
    obtain ⟨nodup, pending⟩ := knows
    cases rest with
    | nil =>
      cases advanced
      refine ⟨by simp [State.finish], ?_, installable, ?_, trivial, unwarned⟩
      · exact fun s installed => absurd (pending s installed) List.not_mem_nil
      · exact fun s hs => absurd hs Finmap.notMem_empty
    | cons signal rest =>
      obtain ⟨fresh, nodup⟩ := List.nodup_cons.1 nodup
      cases outcome : succeeds signal with
      | true =>
        simp only [Pc.signal, outcome, Option.some.injEq] at advanced
        subst advanced
        refine ⟨nonnull, forall_setSignal_default signal registered,
          forall_setSignal_default signal installable, ?_, ⟨nodup, ?_⟩, unwarned⟩
        · intro s hs tight
          have mem : s ∈ rest := by simpa [Pc.Loose] using tight
          apply (setSignal_default_iff st signal s).2
          refine ⟨?_, coupled s hs (by simp [Pc.Loose, mem])⟩
          rintro rfl
          exact fresh mem
        · intro s installed
          obtain ⟨ne, installed⟩ := (setSignal_default_iff st signal s).1 installed
          exact (List.mem_cons.1 (pending s installed)).resolve_left ne
      | false =>
        simp only [Pc.signal, outcome, Option.some.injEq] at advanced
        subst advanced
        refine ⟨nonnull, registered, installable, ?_, ⟨nodup, ?_⟩, unwarned⟩
        · intro s hs tight
          have mem : s ∈ rest := by simpa [Pc.Loose] using tight
          exact coupled s hs (by simp [Pc.Loose, mem])
        · intro s installed
          refine (List.mem_cons.1 (pending s installed)).resolve_left ?_
          rintro rfl
          rw [installable s installed] at outcome
          cases outcome

theorem inv_deliver {st : State H} {signal : Int32} (inv : Inv succeeds st)
    (installed : st.disposition signal = .internalSignalHandler) :
    Inv succeeds (st.internalSignalHandler signal) := by
  obtain ⟨handler, found⟩ := inv.handler installed
  have delivered : st.internalSignalHandler signal =
      { st with handled := st.handled ++ [(signal, handler)] } := by
    simp [State.internalSignalHandler, State.getHandler, found]
  rw [delivered]
  exact ⟨inv.nonnull, inv.registered, inv.installable, inv.coupled, inv.knows, inv.unwarned⟩

theorem inv_step {st st' : State H} {e : Event H} (inv : Inv succeeds st)
    (stepped : step succeeds st e = some st') : Inv succeeds st' := by
  cases e with
  | call c =>
    simp only [step] at stepped
    split at stepped
    next idle => exact inv_call inv idle stepped
    next => cases stepped
  | advance => exact inv_advance inv stepped
  | deliver signal =>
    simp only [step] at stepped
    split_ifs at stepped with installed
    cases stepped
    exact inv_deliver inv installed

/-- In every run of calls interleaved with deliveries: where the manager's handler would run there
is a non-null handler to call, no delivery has gone without one, and between calls the map holds
exactly the signals with the manager's disposition. -/
theorem delivered_signal_finds_handler {disposition : Int32 → Disposition}
    (fresh : ∀ s, disposition s ≠ .internalSignalHandler) {events : List (Event H)} {st : State H}
    (ran : run (step succeeds) (State.init disposition) events = some st) :
    (∀ s, st.disposition s = .internalSignalHandler →
      ∃ handler, st.m_handlers.lookup s = some (some handler)) ∧
    st.warned = [] ∧
    (st.pc = .idle → ∀ s, s ∈ st.m_handlers ↔ st.disposition s = .internalSignalHandler) := by
  have inv : Inv succeeds st := by
    apply run_invariant _ (inv_init fresh) ran
    exact fun _ _ _ inv stepped => inv_step inv stepped
  refine ⟨fun s installed => inv.handler installed, inv.unwarned, fun idle s => ⟨fun hs => ?_, ?_⟩⟩
  · exact inv.coupled s hs (by rw [idle]; exact id)
  · exact inv.registered s

/-- `SIGINT` (2) is registered and delivered twice, the second time while the registration of
`SIGKILL` (9), which fails, is under way. -/
def sigintDelivered : List (Event ℕ) :=
  [.call (.registerSignal 2 (some 7)), .advance, .advance, .deliver 2,
    .call (.registerSignal 9 (some 8)), .advance, .deliver 2, .advance, .advance]

theorem delivered_SIGINT_finds_handler :
    ∃ st, run (step fun s => decide (s = 2)) (State.init fun _ => .SIG_DFL) sigintDelivered =
        some st ∧
      st.handled = [(2, 7), (2, 7)] ∧ st.warned = [] ∧ 2 ∈ st.m_handlers := by
  obtain ⟨st, ran, handled, idle, installed⟩ :
      ∃ st, run (step fun s => decide (s = 2)) (State.init fun _ => .SIG_DFL) sigintDelivered =
          some st ∧
        st.handled = [(2, 7), (2, 7)] ∧ st.pc = .idle ∧
          st.disposition 2 = .internalSignalHandler := ⟨_, rfl, rfl, rfl, rfl⟩
  obtain ⟨-, unwarned, coupled⟩ := delivered_signal_finds_handler (by simp) ran
  exact ⟨st, ran, handled, unwarned, (coupled idle 2).2 installed⟩

end CodeNotes.Signal
