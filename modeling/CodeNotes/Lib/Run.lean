import Mathlib.Tactic

/-!
# Runs of a guarded transition system

A transition system is a partial step function: an event that is not enabled has no successor.
`run step s events` is the state after a sequence of enabled events.  Invariants are proved step by
step (`run_invariant`), and so are simulations (`run_simulates`); `restrict` keeps only the runs
whose steps all meet a condition, and `run_restrict_iff` says when these are the runs that keep a
property.  Steps that answer are run with a log of their answers (`logged`), and
`run_logged_refines` lifts a refinement of the single answers to whole runs.
-/

namespace CodeNotes.Run

variable {σ ε : Type*} (step : σ → ε → Option σ)

/-- The state after the events, if each of them was enabled. -/
def run : σ → List ε → Option σ
  | s, [] => some s
  | s, e :: events => (step s e).bind fun s' => run s' events

@[simp] theorem run_nil (s : σ) : run step s [] = some s := rfl

theorem run_cons (s : σ) (e : ε) (events : List ε) :
    run step s (e :: events) = (step s e).bind fun s' => run step s' events := rfl

theorem run_append (s : σ) (before after : List ε) :
    run step s (before ++ after) = (run step s before).bind fun s' => run step s' after := by
  induction before generalizing s with
  | nil => rfl
  | cons e before ih =>
    rw [List.cons_append, run_cons, run_cons, Option.bind_assoc]
    exact Option.bind_congr fun s' _ => ih s'

variable {step}

/-- What every step preserves holds after every run. -/
theorem run_invariant {I : σ → Prop} (preserved : ∀ s e s', I s → step s e = some s' → I s')
    {s s' : σ} {events : List ε} (initial : I s) (ran : run step s events = some s') : I s' := by
  induction events generalizing s with
  | nil =>
    rw [run_nil, Option.some.injEq] at ran
    exact ran ▸ initial
  | cons e events ih =>
    obtain ⟨t, stepped, rest⟩ := Option.bind_eq_some_iff.1 ran
    exact ih (preserved s e t initial stepped) rest

/-- A system whose every step is matched by another one's is matched along whole runs. -/
theorem run_simulates {τ : Type*} {step' : τ → ε → Option τ} {R : σ → τ → Prop}
    (simulates : ∀ s t e s', R s t → step s e = some s' → ∃ t', step' t e = some t' ∧ R s' t')
    {s s' : σ} {t : τ} {events : List ε} (initial : R s t) (ran : run step s events = some s') :
    ∃ t', run step' t events = some t' ∧ R s' t' := by
  induction events generalizing s t with
  | nil =>
    rw [run_nil, Option.some.injEq] at ran
    exact ⟨t, rfl, ran ▸ initial⟩
  | cons e events ih =>
    obtain ⟨s₁, stepped, rest⟩ := Option.bind_eq_some_iff.1 ran
    obtain ⟨t₁, stepped', related⟩ := simulates s t e s₁ initial stepped
    obtain ⟨t', ran', final⟩ := ih related rest
    refine ⟨t', ?_, final⟩
    rw [run_cons, stepped', Option.bind_some, ran']

/-- The system with the events only that are allowed in the state they meet. -/
def restrict (allowed : σ → ε → Prop) [∀ s e, Decidable (allowed s e)] (step : σ → ε → Option σ)
    (s : σ) (e : ε) : Option σ :=
  if allowed s e then step s e else none

theorem restrict_eq_some {allowed : σ → ε → Prop} [∀ s e, Decidable (allowed s e)] {s s' : σ}
    {e : ε} : restrict allowed step s e = some s' ↔ allowed s e ∧ step s e = some s' := by
  unfold restrict
  split_ifs with h <;> simp [h]

/-- A property that outlives a step exactly when the step is allowed, and never comes back, holds
after a run exactly when all its steps were allowed. -/
theorem run_restrict_iff {I P : σ → Prop} {allowed : σ → ε → Prop} [∀ s e, Decidable (allowed s e)]
    (preserved : ∀ s e s', I s → step s e = some s' → I s')
    (kept : ∀ s e s', I s → step s e = some s' → (P s' ↔ P s ∧ allowed s e))
    {s s' : σ} {events : List ε} (initial : I s) (holds : P s)
    (ran : run step s events = some s') :
    P s' ↔ run (restrict allowed step) s events = some s' := by
  suffices general : P s' ↔ P s ∧ run (restrict allowed step) s events = some s' by
    rw [general, and_iff_right holds]
  clear holds
  induction events generalizing s with
  | nil =>
    rw [run_nil, Option.some.injEq] at ran
    rw [run_nil, ran, and_iff_left rfl]
  | cons e events ih =>
    obtain ⟨t, stepped, rest⟩ := Option.bind_eq_some_iff.1 ran
    rw [ih (preserved s e t initial stepped) rest, kept s e t initial stepped, and_assoc, run_cons,
      restrict, stepped]
    by_cases permitted : allowed s e
    · rw [if_pos permitted, Option.bind_some, and_iff_right permitted]
    · simp [permitted]

/-- Steps that answer, with the answers so far. -/
def logged {ω : Type*} (step : σ → ε → Option (σ × ω)) (s : σ × List ω) (e : ε) :
    Option (σ × List ω) :=
  (step s.1 e).map fun r => (r.1, s.2 ++ [r.2])

/-- If every answer that is specified is given, so are the answers of every run that is
specified. -/
theorem run_logged_refines {ω τ : Type*} {step : σ → ε → Option (σ × ω)}
    {spec : τ → ε → Option (τ × ω)} {R : τ → σ → Prop}
    (refines : ∀ t s e t' a, R t s → spec t e = some (t', a) →
      ∃ s', step s e = some (s', a) ∧ R t' s')
    {t t' : τ} {s : σ} {events : List ε} {answers : List ω} (initial : R t s)
    (ran : run (logged spec) (t, []) events = some (t', answers)) :
    ∃ s', run (logged step) (s, []) events = some (s', answers) ∧ R t' s' := by
  have simulates : ∀ (p : τ × List ω) (q : σ × List ω) (e : ε) (p' : τ × List ω),
      (p.2 = q.2 ∧ R p.1 q.1) → logged spec p e = some p' →
      ∃ q', logged step q e = some q' ∧ (p'.2 = q'.2 ∧ R p'.1 q'.1) := by
    rintro p q e p' ⟨same, related⟩ stepped
    obtain ⟨⟨t, a⟩, answered, rfl⟩ := Option.map_eq_some_iff.1 stepped
    obtain ⟨s, given, related'⟩ := refines p.1 q.1 e t a related answered
    exact ⟨(s, q.2 ++ [a]), by rw [logged, given, Option.map_some], by rw [same], related'⟩
  obtain ⟨⟨s', log⟩, ran', same, related⟩ :=
    run_simulates (t := (s, [])) simulates ⟨rfl, initial⟩ ran
  obtain rfl : answers = log := same
  exact ⟨s', ran', related⟩

end CodeNotes.Run
