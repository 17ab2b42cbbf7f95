import Mathlib.Computability.StateTransition
import CodeNotes.Lib.Run

/-!
# Incremental readers

A reader gets its input in pieces.  A piece is appended to what has not been read yet, and then the
reader takes steps until none is left.  A step that is taken with an input would be taken with more
input, too.  The exception are the hasty steps, with which a reader gives up on an input that is too
long and has no end yet; after such a step there is no other one.  A reader may also give up when it
is fed.

How the input was cut into pieces makes no difference to a reader that was not hasty (`run_eq`).  An
invariant of the steps on the whole input is kept by a run in which no piece is refused and no part
of the input is given up (`run_guarded`).
-/

namespace CodeNotes.Incremental

open StateTransition Run

/-- A reader with states of type `σ` of an input of type `List α`. -/
structure Reader (σ α : Type*) where
  step : σ → Option σ
  extend : σ → List α → σ
  hasty : σ → Prop
  extend_nil : ∀ s, extend s [] = s
  extend_append : ∀ s a b, extend s (a ++ b) = extend (extend s a) b
  step_extend : ∀ {s t} (b), step s = some t → ¬ hasty t → step (extend s b) = some (extend t b)
  step_hasty : ∀ {s}, hasty s → step s = none
  hasty_extend : ∀ {s} (b), hasty s → hasty (extend s b)

variable {σ α : Type*} {reader : Reader σ α} {s t : σ}

theorem reaches_hasty (hasty : reader.hasty s) (reaches : Reaches reader.step s t) : t = s := by
  rcases reaches.cases_head with rfl | ⟨u, stepped, -⟩
  · rfl
  · rw [reader.step_hasty hasty] at stepped
    cases stepped

/-- The steps that are taken with an input are taken with more input, too. -/
theorem reaches_extend (b : List α) (reaches : Reaches reader.step s t) (calm : ¬ reader.hasty t) :
    Reaches reader.step (reader.extend s b) (reader.extend t b) := by
  induction reaches using Relation.ReflTransGen.head_induction_on with
  | refl => exact Relation.ReflTransGen.refl
  | head stepped rest ih =>
    refine Relation.ReflTransGen.head (reader.step_extend b stepped fun hasty => ?_) ih
    rw [reaches_hasty hasty rest] at calm
    exact calm hasty

section Feed

variable {feed : σ → List α → Option σ}
  (feeds : ∀ {s piece t}, feed s piece = some t → ¬ reader.hasty t →
    t ∈ eval reader.step (reader.extend s piece))
  (stays : ∀ {s piece t}, feed s piece = some t → reader.hasty s → reader.hasty t)

include stays in
theorem run_hasty {pieces : List (List α)} (hasty : reader.hasty s)
    (ran : run feed s pieces = some t) : reader.hasty t :=
  run_invariant (fun _ _ _ hasty fed => stays fed hasty) hasty ran

include feeds stays

/-- A reader that was not hasty has taken the steps that it takes on the whole input. -/
theorem run_reaches {pieces : List (List α)} (ran : run feed s pieces = some t)
    (calm : ¬ reader.hasty t) : Reaches reader.step (reader.extend s pieces.flatten) t := by
  induction pieces generalizing s with
  | nil =>
    rw [run_nil, Option.some.injEq] at ran
    rw [List.flatten_nil, reader.extend_nil, ran]
    exact Relation.ReflTransGen.refl
  | cons piece pieces ih =>
    obtain ⟨u, fed, rest⟩ := Option.bind_eq_some_iff.1 ran
    have calm' : ¬ reader.hasty u := fun hasty => calm (run_hasty stays hasty rest)
    have first := reaches_extend pieces.flatten (mem_eval.1 (feeds fed calm')).1 calm'
    rw [List.flatten_cons, reader.extend_append]
    exact first.trans (ih rest)

omit stays in
theorem run_settled {pieces : List (List α)} (settled : reader.step s = none)
    (ran : run feed s pieces = some t) : reader.step t = none := by
  refine run_invariant (I := fun s => reader.step s = none) (fun _ _ t _ fed => ?_) settled ran
  by_cases hasty : reader.hasty t
  · exact reader.step_hasty hasty
  · exact (mem_eval.1 (feeds fed hasty)).2

theorem run_mem_eval {pieces : List (List α)} (settled : reader.step s = none)
    (ran : run feed s pieces = some t) (calm : ¬ reader.hasty t) :
    t ∈ eval reader.step (reader.extend s pieces.flatten) :=
  mem_eval.2 ⟨run_reaches feeds stays ran calm, run_settled feeds settled ran⟩

/-- **The cuts make no difference.** -/
theorem run_eq {t' : σ} {pieces pieces' : List (List α)} (settled : reader.step s = none)
    (ran : run feed s pieces = some t) (calm : ¬ reader.hasty t)
    (ran' : run feed s pieces' = some t') (calm' : ¬ reader.hasty t')
    (same : pieces.flatten = pieces'.flatten) : t = t' := by
  have first := run_mem_eval feeds stays settled ran calm
  have second := run_mem_eval feeds stays settled ran' calm'
  rw [same] at first
  exact Part.mem_unique first second

end Feed

/-- Where nothing is given up on a part of the input, the invariant holds for the rest of it. -/
theorem reaches_guarded {I : σ → Prop} (preserved : ∀ s t, I s → reader.step s = some t → I t)
    (guarded : ∀ s t b, I (reader.extend s b) → reader.step s = some t → ¬ reader.hasty t)
    {b : List α} (whole : I (reader.extend s b)) (reaches : Reaches reader.step s t) :
    I (reader.extend t b) := by
  induction reaches with
  | refl => exact whole
  | tail _ stepped before =>
    have calm := guarded _ _ _ before stepped
    exact preserved _ _ before (reader.step_extend _ stepped calm)

/-- What the steps on the whole input keep, and what rules out that a part of it is given up or that
a piece is refused, holds after a run. -/
theorem run_guarded {feed : σ → List α → Option σ} {I : σ → Prop} {Q : List α → Prop}
    (preserved : ∀ s t, I s → reader.step s = some t → I t)
    (guarded : ∀ s t b, I (reader.extend s b) → reader.step s = some t → ¬ reader.hasty t)
    (fits : ∀ {s piece rest t}, Q piece → reader.step s = none →
      I (reader.extend (reader.extend s piece) rest) → feed s piece = some t →
      t ∈ eval reader.step (reader.extend s piece))
    {pieces : List (List α)} (all : ∀ piece ∈ pieces, Q piece) (settled : reader.step s = none)
    (whole : I (reader.extend s pieces.flatten)) (ran : run feed s pieces = some t) :
    I t ∧ reader.step t = none := by
  induction pieces generalizing s with
  | nil =>
    rw [run_nil, Option.some.injEq] at ran
    rw [List.flatten_nil, reader.extend_nil, ran] at whole
    exact ⟨whole, ran ▸ settled⟩
  | cons piece pieces ih =>
    obtain ⟨first, others⟩ := List.forall_mem_cons.1 all
    obtain ⟨u, fed, rest⟩ := Option.bind_eq_some_iff.1 ran
    rw [List.flatten_cons, reader.extend_append] at whole
    obtain ⟨reaches, settled'⟩ := mem_eval.1 (fits first settled whole fed)
    exact ih others settled' (reaches_guarded preserved guarded whole reaches) rest

end CodeNotes.Incremental
