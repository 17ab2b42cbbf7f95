import CodeNotes.Redis.App
import CodeNotes.Lib.Run

/-!
# What the screen ends up showing

A session of the page: the user acts without waiting for responses, and responses arrive in any
order.  `Intent` is what the page is meant to show, the outcome of the newest operation.  A handler
writes its result whenever its response arrives, so an old response that comes after the newest one
overwrites it (`screen_not_last_operation`); where none does, the screen ends up showing the newest
operation (`screen_shows_last_operation`).
-/

namespace CodeNotes.Redis

open Run

structure Session where
  app : App
  /-- The number of requests sent so far, which numbers the next one. -/
  issued : ℕ
  outstanding : Finmap fun _ : ℕ => Suspended

inductive Session.Event where
  | act (a : Action)
  | respond (id : ℕ) (outcome : Outcome)

namespace Session

def init : Session := { app := .init, issued := 0, outstanding := ∅ }

def send (s : Session) (app : App) : Option Suspended → Session
  | none => { s with app }
  | some handler =>
    { app, issued := s.issued + 1, outstanding := s.outstanding.insert s.issued handler }

def step (s : Session) : Event → Option Session
  | .act a => if s.app.Offers a then some (s.send (s.app.act a).1 (s.app.act a).2) else none
  | .respond id outcome =>
    (s.outstanding.lookup id).map fun handler =>
      { s with app := handler.resume outcome s.app, outstanding := s.outstanding.erase id }

end Session

/-! ### What the page is meant to show -/

/-- The result an operation prescribes for the data of its response. -/
def Suspended.prescribes (data : KeyValue) : Suspended → KeyValue
  | .handleSetKeyValue key value => .singleton key value
  | .handleGetAllKeys | .handleGetValueByKey _ => data
  | .handleDeleteAllKeys | .handleDeleteKey _ => ∅

/-- The newest operation: its request, if it sent one, and the result it prescribes. -/
structure Intent where
  latest : Option ℕ
  result : KeyValue

/-- An action that sends a request, or a click that sends none, is the newest operation; an action
the handler refuses is not an operation. -/
def Intent.next (intent : Intent) (s : Session) : Session.Event → Intent
  | .act a =>
    match (s.app.act a).2, a with
    | some _, _ => { intent with latest := some s.issued }
    | none, .handleOperationClick _ => { latest := none, result := ∅ }
    | none, _ => intent
  | .respond id outcome =>
    match s.outstanding.lookup id, outcome with
    | some handler, .success data =>
      if intent.latest = some id then { intent with result := handler.prescribes data } else intent
    | _, _ => intent

/-- A session with what it is meant to show. -/
structure Screen where
  session : Session
  intent : Intent

namespace Screen

def init : Screen := { session := .init, intent := { latest := none, result := ∅ } }

def step (screen : Screen) (e : Session.Event) : Option Screen :=
  (screen.session.step e).map fun session =>
    { session, intent := screen.intent.next screen.session e }

/-- The newest operation has sent a request and not been answered. -/
def Awaiting (screen : Screen) : Prop :=
  ∃ id ∈ screen.session.outstanding.keys, screen.intent.latest = some id

/-- Responses are successful. -/
def Succeeds : Session.Event → Prop
  | .act _ | .respond _ (.success _) => True
  | .respond _ (.failure _ _) => False

/-- A response belongs to the newest operation, or the newest operation's own is still to come. -/
def Timely (screen : Screen) : Session.Event → Prop
  | .act _ => True
  | .respond id _ => screen.intent.latest = some id ∨ screen.Awaiting

instance : (e : Session.Event) → Decidable (Succeeds e)
  | .act _ | .respond _ (.success _) => inferInstanceAs (Decidable True)
  | .respond _ (.failure _ _) => inferInstanceAs (Decidable False)

instance (screen : Screen) : (e : Session.Event) → Decidable (screen.Timely e)
  | .act _ => inferInstanceAs (Decidable True)
  | .respond _ _ => inferInstanceAs (Decidable (_ ∨ ∃ id ∈ screen.session.outstanding.keys, _))

/-- The screen shows the newest operation, unless that is still awaiting its response. -/
def Inv (screen : Screen) : Prop :=
  ¬ screen.Awaiting → screen.session.app.result = screen.intent.result

/-! ### Steps -/

theorem resume_result (handler : Suspended) (data : KeyValue) (app : App) :
    (handler.resume (.success data) app).result = handler.prescribes data := by
  cases handler <;> rfl

/-- A click empties the result; other actions leave it. -/
theorem act_result (app : App) (a : Action) :
    (app.act a).1.result = match a with
      | .handleOperationClick _ => ∅
      | _ => app.result := by
  cases a with
  | handleOperationClick op => cases op <;> rfl
  | setKey key => rfl
  | setValue value => rfl
  | closeAlert => rfl
  | handleSetKeyValue | handleGetValueByKey | handleDeleteKey =>
    simp only [App.act, App.handleSetKeyValue, App.handleGetValueByKey, App.handleDeleteKey]
    split_ifs <;> rfl

theorem step_eq_some {screen screen' : Screen} {e : Session.Event} :
    screen.step e = some screen' ↔ screen.session.step e = some screen'.session ∧
      screen'.intent = screen.intent.next screen.session e := by
  obtain ⟨session', intent'⟩ := screen'
  simp only [step, Option.map_eq_some_iff, Screen.mk.injEq]
  constructor
  · rintro ⟨session, stepped, rfl, rfl⟩
    exact ⟨stepped, rfl⟩
  · rintro ⟨stepped, rfl⟩
    exact ⟨session', stepped, rfl, rfl⟩

theorem inv_act {screen screen' : Screen} {a : Action} (inv : screen.Inv)
    (stepped : screen.step (.act a) = some screen') : screen'.Inv := by
  obtain ⟨acted, intent⟩ := step_eq_some.1 stepped
  simp only [Session.step, Option.ite_none_right_eq_some, Option.some.injEq] at acted
  obtain ⟨-, session⟩ := acted
  have shown := act_result screen.session.app a
  intro settled
  cases sent : (screen.session.app.act a).2 with
  | some handler =>
    -- The new request is the newest operation's, and outstanding.
    refine absurd ⟨screen.session.issued, ?_, ?_⟩ settled
    · simp [← session, Session.send, sent, Finmap.mem_keys, Finmap.mem_insert]
    · simp [intent, Intent.next, sent]
  | none =>
    rw [sent] at session
    simp only [Intent.next, sent] at intent
    rw [← session, intent]
    cases a with
    | handleOperationClick op =>
      show (screen.session.app.act (.handleOperationClick op)).1.result = ∅
      exact shown
    | _ =>
      refine shown.trans (inv fun awaiting => settled ?_)
      rw [Awaiting, ← session, intent]
      exact awaiting

theorem inv_respond {screen screen' : Screen} {id : ℕ} {data : KeyValue}
    (timely : screen.Timely (.respond id (.success data)))
    (stepped : screen.step (.respond id (.success data)) = some screen') : screen'.Inv := by
  obtain ⟨answered, intent⟩ := step_eq_some.1 stepped
  obtain ⟨handler, found, session⟩ := Option.map_eq_some_iff.1 answered
  simp only [Intent.next, found] at intent
  intro settled
  by_cases newest : screen.intent.latest = some id
  · rw [if_pos newest] at intent
    rw [← session, intent]
    show (handler.resume (.success data) screen.session.app).result = handler.prescribes data
    exact resume_result handler data screen.session.app
  · -- The newest operation's own response is outstanding, and stays so.
    rw [if_neg newest] at intent
    obtain ⟨awaited, outstanding, latest⟩ := timely.resolve_left newest
    refine absurd ⟨awaited, ?_, intent ▸ latest⟩ settled
    have other : awaited ≠ id := by
      rintro rfl
      exact newest latest
    rw [← session, Finmap.mem_keys]
    exact Finmap.mem_erase.2 ⟨other, Finmap.mem_keys.1 outstanding⟩

theorem inv_step {screen screen' : Screen} {e : Session.Event} (inv : screen.Inv)
    (succeeds : Succeeds e) (timely : screen.Timely e) (stepped : screen.step e = some screen') :
    screen'.Inv := by
  cases e with
  | act a => exact inv_act inv stepped
  | respond id outcome =>
    cases outcome with
    | success data => exact inv_respond timely stepped
    | failure status message => cases succeeds

end Screen

/-- If the responses of older operations come only while the newest one awaits its own, the screen
shows the newest operation once no request is outstanding. -/
theorem screen_shows_last_operation {events : List Session.Event} {screen : Screen}
    (ran : run (restrict (fun screen e => Screen.Succeeds e ∧ screen.Timely e) Screen.step)
      Screen.init events = some screen)
    (settled : screen.session.outstanding = ∅) :
    screen.session.app.result = screen.intent.result := by
  have inv : screen.Inv := by
    apply run_invariant _ (fun _ => rfl) ran
    intro _ _ _ inv stepped
    obtain ⟨⟨succeeds, timely⟩, stepped⟩ := restrict_eq_some.1 stepped
    exact Screen.inv_step inv succeeds timely stepped
  apply inv
  rintro ⟨id, outstanding, -⟩
  rw [settled] at outstanding
  exact Finmap.notMem_empty (Finmap.mem_keys.1 outstanding)

/-- The user asks for all pairs and then deletes them, without waiting; the requests are answered
in the order `first`, `second`. -/
def queryThenDelete (first second : Session.Event) : List Session.Event :=
  [.act (.handleOperationClick .queryAll), .act (.handleOperationClick .deleteAll), first, second]

/-- The answer to the query, sent before the pairs are deleted. -/
def staleAnswer : Session.Event := .respond 0 (.success (.singleton (text "k") (text "v")))

theorem screen_shows_deletion :
    ∃ screen, run (restrict (fun screen e => Screen.Succeeds e ∧ screen.Timely e) Screen.step)
        Screen.init (queryThenDelete staleAnswer (.respond 1 (.success ∅))) = some screen ∧
      screen.session.app.result = screen.intent.result ∧ screen.intent.result = ∅ := by
  obtain ⟨screen, ran, settled, intended⟩ :
      ∃ screen, run (restrict (fun screen e => Screen.Succeeds e ∧ screen.Timely e) Screen.step)
          Screen.init (queryThenDelete staleAnswer (.respond 1 (.success ∅))) = some screen ∧
        screen.session.outstanding = ∅ ∧ screen.intent.result = ∅ := ⟨_, rfl, rfl, rfl⟩
  exact ⟨screen, ran, screen_shows_last_operation ran settled, intended⟩

/-- The answers arrive in the other order: the pairs that have been deleted are shown. -/
theorem screen_not_last_operation :
    ¬ ∀ (events : List Session.Event) (screen : Screen),
      run (restrict (fun _ e => Screen.Succeeds e) Screen.step) Screen.init events = some screen →
      screen.session.outstanding = ∅ → screen.session.app.result = screen.intent.result := by
  intro claim
  have shown := claim (queryThenDelete (.respond 1 (.success ∅)) staleAnswer) _ rfl rfl
  have stale : (Finmap.singleton (text "k") (text "v") : KeyValue) = ∅ := shown
  apply Finmap.notMem_empty (a := text "k")
  rw [← stale]
  exact (Finmap.mem_singleton _ _ _).2 rfl

end CodeNotes.Redis
