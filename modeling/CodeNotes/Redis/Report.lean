import CodeNotes.Redis.Screen

/-!
# What the alert reports

The page shows its message in an alert, whose severity it reads off the text of the message.  If the
user waits for each response before acting again, every failure is reported as an error.  But the
two handlers that end in `clearInputs` erase the message they have just set, so that a successful
insertion or deletion by key reports nothing (`insertion_unreported`); all other outcomes are
reported (`reported_iff`).
-/

namespace CodeNotes.Redis

open Run

inductive Severity where
  | error
  | success
  deriving DecidableEq

/-- The alert, shown for a message that is not empty. -/
def App.alert (app : App) : Option (Severity × Text) :=
  if app.message = [] then none
  else some (if text "失败" <:+: app.message then .error else .success, app.message)

/-- A request has failed, unless a query by key was told that there is no such key. -/
def Suspended.Failed : Suspended → Outcome → Prop
  | _, .success _ => False
  | .handleGetValueByKey _, .failure status _ => status ≠ some 404
  | _, .failure _ _ => True

/-- There is an alert, and it is an error exactly when the request failed. -/
def Reported (handler : Suspended) (outcome : Outcome) (app : App) : Prop :=
  ∃ severity message, app.alert = some (severity, message) ∧
    (severity = .error ↔ handler.Failed outcome)

/-- A success of a handler that ends in `clearInputs`. -/
def Suspended.Silent : Suspended → Outcome → Prop
  | .handleSetKeyValue _ _, .success _ | .handleDeleteKey _, .success _ => True
  | _, _ => False

/-! ### One handler -/

theorem reported_success {handler : Suspended} {outcome : Outcome} {app : App}
    (shown : app.message ≠ []) (plain : ¬ text "失败" <:+: app.message)
    (succeeded : ¬ handler.Failed outcome) : Reported handler outcome app := by
  refine ⟨.success, app.message, ?_, by simp [succeeded]⟩
  rw [App.alert, if_neg shown, if_neg plain]

theorem reported_error {handler : Suspended} {outcome : Outcome} {app : App} {message : Text}
    (shown : app.message = text "操作失败：" ++ message) (failed : handler.Failed outcome) :
    Reported handler outcome app := by
  have named : text "失败" <:+: app.message := by
    rw [shown]
    exact ⟨text "操作", text "：" ++ message, rfl⟩
  have nonempty : app.message ≠ [] := by
    rw [shown]
    exact List.cons_ne_nil _ _
  refine ⟨.error, app.message, ?_, by simp [failed]⟩
  rw [App.alert, if_neg nonempty, if_pos named]

theorem not_reported_clearInputs (handler : Suspended) (outcome : Outcome) (app : App) :
    ¬ Reported handler outcome app.clearInputs := by
  rintro ⟨severity, message, shown, -⟩
  cases shown

theorem reported_resume_failure (handler : Suspended) (status : Option ℕ) (message : Text)
    (app : App) :
    Reported handler (.failure status message) (handler.resume (.failure status message) app) := by
  cases handler with
  | handleGetValueByKey key =>
    by_cases missing : status = some 404
    · -- the one failure that is an answer
      rw [Suspended.resume, if_pos missing]
      exact reported_success (by decide : text "未找到该key" ≠ [])
        (by decide : ¬ text "失败" <:+: text "未找到该key") fun failed => failed missing
    · rw [Suspended.resume, if_neg missing]
      exact reported_error rfl missing
  | _ => exact reported_error rfl trivial

theorem reported_resume_success (handler : Suspended) (data : KeyValue) (app : App) :
    Reported handler (.success data) (handler.resume (.success data) app) ↔
      ¬ handler.Silent (.success data) := by
  cases handler with
  | handleSetKeyValue | handleDeleteKey =>
    exact iff_of_false (not_reported_clearInputs _ _ _) (not_not_intro trivial)
  | handleGetAllKeys =>
    refine iff_of_true ?_ not_false
    rw [Suspended.resume]
    split_ifs
    · exact reported_success (by decide : text "查询成功！" ≠ [])
        (by decide : ¬ text "失败" <:+: text "查询成功！") not_false
    · exact reported_success (by decide : text "数据库为空" ≠ [])
        (by decide : ¬ text "失败" <:+: text "数据库为空") not_false
  | handleGetValueByKey key =>
    exact iff_of_true (reported_success (by decide : text "查询成功！" ≠ [])
      (by decide : ¬ text "失败" <:+: text "查询成功！") not_false) not_false
  | handleDeleteAllKeys =>
    exact iff_of_true (reported_success (by decide : text "所有数据已删除！" ≠ [])
      (by decide : ¬ text "失败" <:+: text "所有数据已删除！") not_false) not_false

theorem reported_resume_iff (handler : Suspended) (outcome : Outcome) (app : App) :
    Reported handler outcome (handler.resume outcome app) ↔ ¬ handler.Silent outcome := by
  cases outcome with
  | success data => exact reported_resume_success handler data app
  | failure status message =>
    have loud : ¬ handler.Silent (.failure status message) := by
      cases handler <;> exact not_false
    exact iff_of_true (reported_resume_failure handler status message app) loud

/-! ### One operation at a time -/

/-- A session with the handler that has just finished, if the user has not acted since. -/
structure Page where
  session : Session
  finished : Option (Suspended × Outcome)

namespace Page

def init : Page := { session := .init, finished := none }

def step (page : Page) (e : Session.Event) : Option Page :=
  (page.session.step e).map fun session =>
    { session
      finished := match e with
        | .act _ => none
        | .respond id outcome => (page.session.outstanding.lookup id).map fun handler =>
          (handler, outcome) }

/-- The user acts only when no response is awaited. -/
def Sequential (page : Page) : Session.Event → Prop
  | .act _ => page.session.outstanding = ∅
  | .respond _ _ => True

instance (page : Page) : (e : Session.Event) → Decidable (page.Sequential e)
  | .act _ => inferInstanceAs (Decidable (_ = _))
  | .respond _ _ => inferInstanceAs (Decidable True)

/-- The page is as the handler that has just finished left it. -/
def Inv (page : Page) : Prop :=
  ∀ handler outcome, page.finished = some (handler, outcome) →
    ∃ app, page.session.app = handler.resume outcome app

theorem inv_step {page page' : Page} {e : Session.Event} (stepped : page.step e = some page') :
    page'.Inv := by
  obtain ⟨session, advanced, rfl⟩ := Option.map_eq_some_iff.1 stepped
  intro handler outcome finished
  cases e with
  | act a => cases finished
  | respond id answer =>
    obtain ⟨found, lookup, rfl⟩ := Option.map_eq_some_iff.1 advanced
    obtain ⟨known, lookup', same⟩ := Option.map_eq_some_iff.1 finished
    obtain ⟨rfl, rfl⟩ := Prod.mk.inj same
    rw [lookup, Option.some.injEq] at lookup'
    exact ⟨page.session.app, by rw [lookup']⟩

end Page

/-- Where operations are carried out one at a time, a handler that has finished is reported unless
it was a successful insertion or deletion by key. -/
theorem reported_iff {events : List Session.Event} {page : Page} {handler : Suspended}
    {outcome : Outcome}
    (ran : run (restrict Page.Sequential Page.step) Page.init events = some page)
    (finished : page.finished = some (handler, outcome)) :
    Reported handler outcome page.session.app ↔ ¬ handler.Silent outcome := by
  have inv : page.Inv := by
    refine run_invariant ?_ (fun _ _ none => by cases none) ran
    intro _ _ _ _ stepped
    exact Page.inv_step (restrict_eq_some.1 stepped).2
  obtain ⟨app, left⟩ := inv handler outcome finished
  rw [left]
  exact reported_resume_iff handler outcome app

/-- The user inserts a pair, and the request is answered. -/
def insertion (outcome : Outcome) : List Session.Event :=
  [.act (.handleOperationClick .insert), .act (.setKey (text "k")), .act (.setValue (text "v")),
    .act .handleSetKeyValue, .respond 0 outcome]

theorem failed_insertion_reported :
    ∃ page, run (restrict Page.Sequential Page.step) Page.init
        (insertion (.failure none (text "Network Error"))) = some page ∧
      Reported (.handleSetKeyValue (text "k") (text "v")) (.failure none (text "Network Error"))
        page.session.app := by
  obtain ⟨page, ran, finished⟩ :
      ∃ page, run (restrict Page.Sequential Page.step) Page.init
          (insertion (.failure none (text "Network Error"))) = some page ∧
        page.finished = some (.handleSetKeyValue (text "k") (text "v"),
          .failure none (text "Network Error")) := ⟨_, rfl, rfl⟩
  exact ⟨page, ran, (reported_iff ran finished).2 not_false⟩

/-- A successful insertion leaves no message. -/
theorem insertion_unreported :
    ¬ ∀ (events : List Session.Event) (page : Page) (handler : Suspended) (outcome : Outcome),
      run (restrict Page.Sequential Page.step) Page.init events = some page →
      page.finished = some (handler, outcome) → Reported handler outcome page.session.app := by
  intro claim
  obtain ⟨severity, message, shown, -⟩ := claim (insertion (.success ∅)) _ _ _ rfl rfl
  cases shown

end CodeNotes.Redis
