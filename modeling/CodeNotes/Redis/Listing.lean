import CodeNotes.Redis.Backend
import CodeNotes.Lib.Run

/-!
# Listing a store that others change

One `getAllKeys` request whose commands interleave with commands of other requests and may fail
one by one.  The loop reads each listed key once and skips it on any error, so at every point a key
that has held a string all along is still to be read, in the result, or lost to a failed `GET`
(`Progress.pending`).  Hence an answer is complete exactly if no such key was lost
(`listing_complete_iff`).
-/

namespace CodeNotes.Redis

open Run Service

/-- A request under way. -/
structure Listing where
  db : Db
  handler : Handler
  /-- The databases from the start of the request up to now. -/
  moments : List Db
  /-- The commands of the request that failed. -/
  lost : List Command

inductive Listing.Event where
  /-- The request's next command is executed; `KEYS` lists the keys as `order`. -/
  | served (order : List Bytes)
  /-- The request's next command fails with a connection error. -/
  | failed (message : Bytes)
  /-- A command of another request. -/
  | other (c : Command)

namespace Listing

def init (db : Db) : Listing := { db, handler := getAllKeys, moments := [db], lost := [] }

/-- The moment after a command has been executed. -/
def command (st : Listing) (c : Command) : Listing :=
  { st with db := st.db.after c, moments := st.db.after c :: st.moments }

/-- One command; the request ends with its answer. -/
def step (st : Listing) (e : Event) : Option Listing :=
  match st.handler, e with
  | .done _, _ => none
  | .call c next, .served order =>
    if c = .KEYS → st.db.Enumerates order then
      some { st.command c with handler := next (st.db.reply order c) }
    else none
  | .call c next, .failed message =>
    some { st with handler := next (.error (.connection message)), lost := c :: st.lost }
  | .call _ _, .other c => some (st.command c)

/-- Where the loop stands with `keys` still to read and `result` read. -/
structure Progress (moments : List Db) (lost : List Command) (keys : List Bytes) (result : Body) :
    Prop where
  nodup : keys.Nodup
  fresh : ∀ key ∈ keys, key ∉ result
  read : ∀ key value, result.lookup key = some value →
    ∃ moment ∈ moments, moment.lookup key = some (.string value)
  pending : ∀ key, (∀ moment ∈ moments, moment.Holds key) →
    key ∈ keys ∨ key ∈ result ∨ .GET key ∈ lost
  missed : ∀ key, .GET key ∈ lost → key ∉ keys ∧ key ∉ result

/-- Before the listing, in the loop, or refused. -/
inductive Phase (st : Listing) : Prop where
  | listing (handler : st.handler = getAllKeys) (lost : st.lost = [])
  | reading (keys : List Bytes) (result : Body) (handler : st.handler = getAllKeysLoop keys result)
      (progress : Progress st.moments st.lost keys result)
  | refused (err : RedisError)
      (handler : st.handler = answer StatusInternalServerError (literal "error") err.text)

structure Inv (st : Listing) : Prop where
  current : st.db ∈ st.moments
  phase : st.Phase

theorem inv_init (db : Db) : (init db).Inv := ⟨List.mem_singleton.2 rfl, .listing rfl rfl⟩

/-! ### Steps of the loop -/

section Loop

variable {moments : List Db} {lost : List Command} {key : Bytes} {keys : List Bytes} {result : Body}

theorem Progress.moment (progress : Progress moments lost keys result) (db : Db) :
    Progress (db :: moments) lost keys result where
  nodup := progress.nodup
  fresh := progress.fresh
  read := fun key value found => by
    obtain ⟨moment, seen, held⟩ := progress.read key value found
    exact ⟨moment, List.mem_cons_of_mem _ seen, held⟩
  pending := fun key held =>
    progress.pending key fun moment seen => held moment (List.mem_cons_of_mem _ seen)
  missed := progress.missed

/-- A `GET` that finds no string skips a key that did not hold one all along. -/
theorem Progress.skip (progress : Progress moments lost (key :: keys) result) {db : Db}
    (current : db ∈ moments) (absent : ¬ db.Holds key) : Progress moments lost keys result where
  nodup := (List.nodup_cons.1 progress.nodup).2
  fresh := fun k listed => progress.fresh k (List.mem_cons_of_mem _ listed)
  read := progress.read
  pending := fun k held => by
    rcases progress.pending k held with listed | rest
    · rcases List.mem_cons.1 listed with rfl | listed
      · exact absurd (held db current) absent
      · exact Or.inl listed
    · exact Or.inr rest
  missed := fun k hk => by
    obtain ⟨unread, absent⟩ := progress.missed k hk
    exact ⟨fun listed => unread (List.mem_cons_of_mem _ listed), absent⟩

/-- A `GET` that finds a string adds the pair. -/
theorem Progress.add (progress : Progress moments lost (key :: keys) result) {db : Db}
    (current : db ∈ moments) {value : Bytes} (found : db.lookup key = some (.string value)) :
    Progress moments lost keys (result.insert key value) := by
  obtain ⟨unlisted, nodup⟩ := List.nodup_cons.1 progress.nodup
  refine ⟨nodup, ?_, ?_, ?_, ?_⟩
  · intro k listed inserted
    rcases Finmap.mem_insert.1 inserted with rfl | old
    · exact unlisted listed
    · exact progress.fresh k (List.mem_cons_of_mem _ listed) old
  · intro k v entry
    by_cases hk : k = key
    · subst hk
      rw [Finmap.lookup_insert, Option.some.injEq] at entry
      exact ⟨db, current, entry ▸ found⟩
    · rw [Finmap.lookup_insert_of_ne _ hk] at entry
      exact progress.read k v entry
  · intro k held
    rw [Finmap.mem_insert]
    rcases progress.pending k held with listed | old | lost
    · rcases List.mem_cons.1 listed with rfl | listed
      · exact Or.inr (Or.inl (Or.inl rfl))
      · exact Or.inl listed
    · exact Or.inr (Or.inl (Or.inr old))
    · exact Or.inr (Or.inr lost)
  · intro k lost
    obtain ⟨unread, absent⟩ := progress.missed k lost
    refine ⟨fun listed => unread (List.mem_cons_of_mem _ listed), fun inserted => ?_⟩
    rcases Finmap.mem_insert.1 inserted with rfl | old
    · exact unread (List.mem_cons_self ..)
    · exact absent old

/-- A `GET` that fails is lost. -/
theorem Progress.lose (progress : Progress moments lost (key :: keys) result) :
    Progress moments (.GET key :: lost) keys result := by
  obtain ⟨unlisted, nodup⟩ := List.nodup_cons.1 progress.nodup
  refine ⟨nodup, fun k listed => progress.fresh k (List.mem_cons_of_mem _ listed), progress.read,
    ?_, ?_⟩
  · intro k held
    rcases progress.pending k held with listed | old | lost
    · rcases List.mem_cons.1 listed with rfl | listed
      · exact Or.inr (Or.inr (List.mem_cons_self ..))
      · exact Or.inl listed
    · exact Or.inr (Or.inl old)
    · exact Or.inr (Or.inr (List.mem_cons_of_mem _ lost))
  · intro k lost
    rcases List.mem_cons.1 lost with same | lost
    · cases same
      exact ⟨unlisted, progress.fresh _ (List.mem_cons_self ..)⟩
    · obtain ⟨unread, absent⟩ := progress.missed k lost
      exact ⟨fun listed => unread (List.mem_cons_of_mem _ listed), absent⟩

end Loop

/-! ### Steps of the request -/

variable {st : Listing}

theorem inv_served {order : List Bytes} (inv : st.Inv) {c : Command} {next : c.Reply → Handler}
    (handler : st.handler = .call c next) (listed : c = .KEYS → st.db.Enumerates order) :
    { st.command c with handler := next (st.db.reply order c) }.Inv := by
  refine ⟨List.mem_cons_self .., ?_⟩
  cases inv.phase with
  | listing started lost =>
    rw [started] at handler
    cases handler
    have enumerates := listed rfl
    refine .reading order ∅ rfl ⟨enumerates.1, fun _ _ => Finmap.notMem_empty, ?_, ?_, ?_⟩
    · intro key value found
      cases found
    · intro key held
      obtain ⟨value, found⟩ := held st.db (List.mem_cons_self ..)
      exact Or.inl ((enumerates.mem_iff key).2 (Finmap.mem_of_lookup_eq_some found))
    · intro key missed
      have none_lost : .GET key ∈ st.lost := missed
      rw [lost] at none_lost
      cases none_lost
  | reading keys result reading progress =>
    rw [reading] at handler
    cases keys with
    | nil => cases handler
    | cons key keys =>
      cases handler
      have progress := progress.moment st.db
      have current : st.db ∈ st.db :: st.moments := List.mem_cons_self ..
      cases replied : st.db.get key with
      | error err =>
        have absent : ¬ st.db.Holds key := by
          intro holds
          obtain ⟨value, found⟩ := holds.get
          rw [found] at replied
          cases replied
        refine .reading keys result ?_ (progress.skip current absent)
        simp only [Db.reply, replied]
      | ok value =>
        have added := progress.add current (Db.get_eq_ok_iff.1 replied)
        refine .reading keys (result.insert key value) ?_ added
        simp only [Db.reply, replied]
  | refused err refused =>
    rw [refused] at handler
    cases handler

theorem inv_failed {message : Bytes} (inv : st.Inv) {c : Command} {next : c.Reply → Handler}
    (handler : st.handler = .call c next) :
    { st with handler := next (.error (.connection message)), lost := c :: st.lost }.Inv := by
  refine ⟨inv.current, ?_⟩
  cases inv.phase with
  | listing started lost =>
    rw [started] at handler
    cases handler
    exact .refused (.connection message) rfl
  | reading keys result reading progress =>
    rw [reading] at handler
    cases keys with
    | nil => cases handler
    | cons key keys =>
      cases handler
      exact .reading keys result rfl progress.lose
  | refused err refused =>
    rw [refused] at handler
    cases handler

theorem inv_other (inv : st.Inv) (c : Command) : (st.command c).Inv := by
  refine ⟨List.mem_cons_self .., ?_⟩
  cases inv.phase with
  | listing started lost => exact .listing started lost
  | reading keys result reading progress =>
    exact .reading keys result reading (progress.moment (st.db.after c))
  | refused err refused => exact .refused err refused

theorem inv_step {st' : Listing} {e : Event} (inv : st.Inv) (stepped : st.step e = some st') :
    st'.Inv := by
  unfold step at stepped
  cases handler : st.handler with
  | done response => rw [handler] at stepped; cases stepped
  | call c next =>
    rw [handler] at stepped
    cases e with
    | served order =>
      simp only at stepped
      split_ifs at stepped with listed
      cases stepped
      exact inv_served inv handler listed
    | failed message =>
      cases stepped
      exact inv_failed inv handler
    | other c =>
      cases stepped
      exact inv_other inv c

/-- An answer `200` comes from the end of the loop. -/
theorem Inv.finished (inv : st.Inv) {body : Body} (answered : st.handler = .done ⟨StatusOK, body⟩) :
    Progress st.moments st.lost [] body := by
  cases inv.phase with
  | listing started lost => rw [started] at answered; cases answered
  | reading keys result reading progress =>
    rw [reading] at answered
    cases keys with
    | nil => cases answered; exact progress
    | cons key keys => cases answered
  | refused err refused => rw [refused] at answered; cases answered

end Listing

/-- Every pair of the answer was in the database at some moment of the request, and every key that
held a string at every moment is in the answer. -/
def Listing.Complete (st : Listing) (body : Body) : Prop :=
  (∀ key value, body.lookup key = some value →
    ∃ moment ∈ st.moments, moment.lookup key = some (.string value)) ∧
  ∀ key, (∀ moment ∈ st.moments, moment.Holds key) → key ∈ body

/-- An answer `200` is complete exactly if each `GET` that failed was of a key that did not hold a
string at some moment of the request. -/
theorem listing_complete_iff {db : Db} {events : List Listing.Event} {st : Listing} {body : Body}
    (ran : run Listing.step (Listing.init db) events = some st)
    (answered : st.handler = .done ⟨StatusOK, body⟩) :
    st.Complete body ↔
      ∀ key, .GET key ∈ st.lost → ∃ moment ∈ st.moments, ¬ moment.Holds key := by
  have inv : st.Inv := by
    apply run_invariant _ (Listing.inv_init db) ran
    exact fun _ _ _ inv stepped => Listing.inv_step inv stepped
  have progress := inv.finished answered
  constructor
  · intro complete key lost
    by_contra held
    push Not at held
    exact (progress.missed key lost).2 (complete.2 key held)
  · intro answeredAll
    refine ⟨progress.read, fun key held => ?_⟩
    rcases progress.pending key held with listed | read | lost
    · cases listed
    · exact read
    · obtain ⟨moment, seen, absent⟩ := answeredAll key lost
      exact absurd (held moment seen) absent

theorem listing_complete_overwritten :
    ∃ (st : Listing) (body : Body),
      run Listing.step (Listing.init (Db.pair (literal "k") (literal "v")))
        [.served [literal "k"], .other (.SET (literal "k") (literal "w")), .served []] = some st ∧
      st.handler = .done ⟨StatusOK, body⟩ ∧ body.lookup (literal "k") = some (literal "w") ∧
      st.Complete body := by
  obtain ⟨st, body, ran, answered, found, lost⟩ :
      ∃ (st : Listing) (body : Body),
        run Listing.step (Listing.init (Db.pair (literal "k") (literal "v")))
          [.served [literal "k"], .other (.SET (literal "k") (literal "w")), .served []] = some st ∧
        st.handler = .done ⟨StatusOK, body⟩ ∧ body.lookup (literal "k") = some (literal "w") ∧
        st.lost = [] := ⟨_, _, rfl, rfl, rfl, rfl⟩
  exact ⟨st, body, ran, answered, found, (listing_complete_iff ran answered).2 (by simp [lost])⟩

/-- The listed key is there all along, its `GET` fails, and the answer `200` omits it. -/
theorem listing_not_complete :
    ¬ ∀ (db : Db) (events : List Listing.Event) (st : Listing) (body : Body),
      run Listing.step (Listing.init db) events = some st →
      st.handler = .done ⟨StatusOK, body⟩ → st.Complete body := by
  intro claim
  obtain ⟨st, ran, answered, moments⟩ :
      ∃ st : Listing, run Listing.step (Listing.init (Db.pair (literal "k") (literal "v")))
          [.served [literal "k"], .failed (literal "i/o timeout")] = some st ∧
        st.handler = .done ⟨StatusOK, ∅⟩ ∧
        st.moments = [Db.pair (literal "k") (literal "v"), Db.pair (literal "k") (literal "v")] :=
    ⟨_, rfl, rfl, rfl⟩
  have complete := claim _ _ st ∅ ran answered
  refine Finmap.notMem_empty (complete.2 (literal "k") fun moment seen => ?_)
  have same : moment = Db.pair (literal "k") (literal "v") := by simpa [moments] using seen
  rw [same]
  exact ⟨literal "v", Finmap.lookup_singleton_eq⟩

end CodeNotes.Redis
