import CodeNotes.RedisServer.AofReplay

/-!
# What the append only file gives back

After a crash the disk has a beginning of what was written.  The writer appends records
(`feed_emits`), and the records of an execution unit have no effect before the last of them
(`unit_spec`).  So whatever the disk has is loaded, and each unit is there as a whole or not at all
(`aof_atomic`).
-/

namespace CodeNotes.RedisServer

open Redis Run

variable {σ : Type*} {server : AofServer σ} {data : σ}

/-! ### The writer appends records -/

/-- The record of a time. -/
def stampRecord (time : ℤ) : Record := .note (literal "#TS:" ++ integerText time ++ [13])

def selectRecord (id : ℕ) : Record := .command [literal "SELECT", decimalText id]

theorem text_stampRecord (time : ℤ) : (stampRecord time).text = annotationText time := by
  rw [stampRecord, Record.text, annotationText, List.append_assoc _ [13] [10]]
  rfl

theorem readable_stampRecord {time : ℤ} (lower : -2 ^ 63 ≤ time) (upper : time < 2 ^ 63) :
    (stampRecord time).Readable server ∧
      (literal "#TS:" ++ integerText time ++ [13]).length < 40 := by
  have length := length_integerText_lt lower upper
  have start : literal "#TS:" = [ascii '#', ascii 'T', ascii 'S', ascii ':'] := by decide +kernel
  have bound : (literal "#TS:" ++ integerText time ++ [13]).length < 40 := by
    rw [LONG_STR_SIZE] at length
    rw [start, List.length_append, List.length_append]
    simp only [List.length_cons, List.length_nil]
    omega
  refine ⟨⟨bound.trans (by decide), ?_, ?_⟩, bound⟩
  · rw [start, List.mem_append, List.mem_append]
    rintro ((mark | digits) | carriage)
    · exact absurd mark (by decide)
    · rw [integerText] at digits
      split_ifs at digits
      · rcases List.mem_cons.1 digits with minus | digit
        · exact absurd minus (by decide)
        · exact absurd (isDigit_of_mem_decimalText digit) (by decide)
      · exact absurd (isDigit_of_mem_decimalText digits) (by decide)
    · exact absurd carriage (by decide)
  · rw [start]
    rfl

/-- A server that knows the commands which the writer adds. -/
structure AofServer.Ready (server : AofServer σ) : Prop where
  memory : 64 ≤ server.memory
  dbnum : server.dbnum ≤ INT_MAX
  multi : server.lookupCommand [literal "MULTI"] = some .multi
  exec : server.lookupCommand [literal "EXEC"] = some .exec
  select : ∀ id, server.lookupCommand [literal "SELECT", decimalText id] = some .select

/-- The writer has appended some records. -/
structure Emits (server : AofServer σ) (aof aof' : AofWriter) (records : List Record) : Prop where
  buf : aof'.buf = aof.buf ++ records.flatMap Record.text
  enabled : aof'.timestampEnabled = aof.timestampEnabled
  readable : ∀ record ∈ records, record.Readable server
  notes : ∀ line, .note line ∈ records → line.length < 40 ∧ aof.timestampEnabled = true
  quiet : records = [] → aof' = aof
  starts : aof.timestampEnabled = true → aof.curTimestamp = 0 → records ≠ [] →
    ∃ line rest, records = .note line :: rest
  ends : ∀ record ∈ records.getLast?, record.isNote = false

variable {aof aof' aof'' : AofWriter}

theorem emits_nil (aof : AofWriter) : Emits server aof aof [] where
  buf := (List.append_nil _).symm
  enabled := rfl
  readable _ member := by cases member
  notes _ member := by cases member
  quiet _ := rfl
  starts _ _ nonempty := absurd rfl nonempty
  ends _ member := by cases member

theorem Emits.trans {records records' : List Record} (first : Emits server aof aof' records)
    (second : Emits server aof' aof'' records') : Emits server aof aof'' (records ++ records') where
  buf := by rw [second.buf, first.buf, List.flatMap_append, List.append_assoc]
  enabled := second.enabled.trans first.enabled
  readable record member := by
    rcases List.mem_append.1 member with old | new
    · exact first.readable record old
    · exact second.readable record new
  notes line member := by
    rcases List.mem_append.1 member with old | new
    · exact first.notes line old
    · exact ⟨(second.notes line new).1, first.enabled ▸ (second.notes line new).2⟩
  quiet empty := by
    obtain ⟨rfl, rfl⟩ := List.append_eq_nil_iff.1 empty
    rw [second.quiet rfl, first.quiet rfl]
  starts enabled fresh nonempty := by
    by_cases empty : records = []
    · obtain rfl := first.quiet empty
      rw [empty, List.nil_append] at nonempty ⊢
      exact second.starts enabled fresh nonempty
    · obtain ⟨line, rest, rfl⟩ := first.starts enabled fresh empty
      exact ⟨line, rest ++ records', rfl⟩
  ends record last := by
    rw [List.getLast?_append] at last
    rcases Option.or_eq_some_iff.1 last with new | ⟨-, old⟩
    · exact second.ends record new
    · exact first.ends record old

/-- The selection of a database in front of a command. -/
def Selects (selected dbid : Option ℕ) (select : List Record) (selected' : Option ℕ) : Prop :=
  (select = [] ∧ selected' = selected ∧ ∀ id ∈ dbid, selected = some id) ∨
    ∃ id, dbid = some id ∧ select = [selectRecord id] ∧ selected' = some id

theorem fits_select (ready : server.Ready) {id : ℕ} (valid : id < server.dbnum) :
    Fits server [literal "SELECT", decimalText id] where
  nonempty := List.cons_ne_nil _ _
  count := by
    show 2 ≤ INT_MAX
    decide
  memory := by
    have memory := ready.memory
    show 8 * 2 ≤ server.memory
    omega
  lengths arg member := by
    have memory := ready.memory
    have dbnum := ready.dbnum
    rw [INT_MAX] at dbnum
    rcases List.mem_pair.1 member with rfl | rfl
    · have length : (literal "SELECT").length = 6 := by decide +kernel
      omega
    · have length := length_decimalText_le (n := id) (by omega)
      omega

theorem feedTimestamp_spec (server : AofServer σ) {unixtime : ℤ}
    (time : 0 < unixtime ∧ unixtime < 2 ^ 63)
    (aof : AofWriter) :
    ∃ aof' notes, feedTimestamp unixtime aof = (aof', notes.flatMap Record.text) ∧ Notes notes ∧
      aof'.buf = aof.buf ∧ aof'.selectedDb = aof.selectedDb ∧
      aof'.timestampEnabled = aof.timestampEnabled ∧
      (∀ record ∈ notes, record.Readable server) ∧
      (∀ line, .note line ∈ notes → line.length < 40 ∧ aof.timestampEnabled = true) ∧
      (aof.timestampEnabled = true → aof.curTimestamp = 0 → notes ≠ []) := by
  have no_notes : ∀ record ∈ ([] : List Record), ∃ line, record = .note line := by rintro _ ⟨⟩
  rw [feedTimestamp]
  by_cases enabled : aof.timestampEnabled = true
  · rw [if_pos enabled, genAofTimestampAnnotationIfNeeded]
    by_cases later : aof.curTimestamp < unixtime
    · obtain ⟨readable, short⟩ : (stampRecord unixtime).Readable server ∧ _ :=
        readable_stampRecord (by omega) time.2
      refine ⟨{ aof with curTimestamp := unixtime }, [stampRecord unixtime], ?_, ?_, rfl, rfl, rfl,
        ?_, ?_, fun _ _ => List.cons_ne_nil _ _⟩
      · rw [if_pos later, List.flatMap_singleton, text_stampRecord]
      · intro record member
        exact ⟨_, List.mem_singleton.1 member⟩
      · intro record member
        rw [List.mem_singleton.1 member]
        exact readable
      · intro line member
        cases List.mem_singleton.1 member
        exact ⟨short, enabled⟩
    · refine ⟨aof, [], if_neg later, no_notes, rfl, rfl, rfl, by rintro _ ⟨⟩, by rintro _ ⟨⟩, ?_⟩
      intro _ fresh
      rw [fresh] at later
      exact absurd time.1 later
  · exact ⟨aof, [], if_neg enabled, no_notes, rfl, rfl, rfl, by rintro _ ⟨⟩, by rintro _ ⟨⟩,
      fun on => absurd on enabled⟩

theorem feedSelect_spec (dbid : Option ℕ) (aof : AofWriter) :
    ∃ aof' select, feedSelect dbid aof = (aof', select.flatMap Record.text) ∧
      aof'.buf = aof.buf ∧ aof'.timestampEnabled = aof.timestampEnabled ∧
      Selects aof.selectedDb dbid select aof'.selectedDb := by
  cases dbid with
  | none => exact ⟨aof, [], rfl, rfl, rfl, Or.inl ⟨rfl, rfl, by rintro _ ⟨⟩⟩⟩
  | some id =>
    dsimp only [feedSelect]
    by_cases other : aof.selectedDb ≠ some id
    · refine ⟨{ aof with selectedDb := some id }, [selectRecord id], ?_, rfl, rfl,
        Or.inr ⟨id, rfl, rfl, rfl⟩⟩
      rw [if_pos other, List.flatMap_singleton, selectText_eq]
      rfl
    · refine ⟨aof, [], if_neg other, rfl, rfl, Or.inl ⟨rfl, rfl, ?_⟩⟩
      rintro _ ⟨⟩
      exact not_not.1 other

/-- A command is appended, with the time and the database in front of it. -/
theorem feed_emits {unixtime : ℤ} {dbid : Option ℕ} {argv : List Bytes} (ready : server.Ready)
    (time : 0 < unixtime ∧ unixtime < 2 ^ 63) (valid : ∀ id ∈ dbid, id < server.dbnum)
    (fits : Fits server argv) (aof : AofWriter) :
    ∃ aof' notes select, feedAppendOnlyFile server.dbnum unixtime aof dbid argv = some aof' ∧
      Emits server aof aof' (notes ++ select ++ [.command argv]) ∧ Notes notes ∧
      Selects aof.selectedDb dbid select aof'.selectedDb := by
  obtain ⟨aof₁, notes, stamped, skipped, buf₁, selected₁, enabled₁, readable, short, first⟩ :=
    feedTimestamp_spec server time aof
  obtain ⟨aof₂, select, chosen, buf₂, enabled₂, selects⟩ := feedSelect_spec dbid aof₁
  have text : (notes ++ select ++ [Record.command argv]).flatMap Record.text =
      notes.flatMap Record.text ++ select.flatMap Record.text ++ commandText argv := by
    rw [List.flatMap_append, List.flatMap_append, List.flatMap_singleton]
    rfl
  refine ⟨{ aof₂ with
      buf := aof₂.buf ++ (notes ++ select ++ [Record.command argv]).flatMap Record.text },
    notes, select, ?_, ⟨?_, ?_, ?_, ?_, ?_, ?_, ?_⟩, skipped, ?_⟩
  · rw [feedAppendOnlyFile, if_pos valid, stamped]
    dsimp only
    rw [chosen]
    dsimp only
    rw [fits.cat, Option.map_some, text]
  · rw [buf₂, buf₁]
  · exact enabled₂.trans enabled₁
  · intro record member
    rcases List.mem_append.1 member with before | last
    · rcases List.mem_append.1 before with note | choice
      · exact readable record note
      · rcases selects with ⟨rfl, -⟩ | ⟨id, rfl, rfl, -⟩
        · cases choice
        · rw [List.mem_singleton.1 choice]
          exact fits_select ready (valid id rfl)
    · rw [List.mem_singleton.1 last]
      exact fits
  · intro line member
    rcases List.mem_append.1 member with before | last
    · rcases List.mem_append.1 before with note | choice
      · exact short line note
      · rcases selects with ⟨rfl, -⟩ | ⟨id, rfl, rfl, -⟩
        · cases choice
        · cases List.mem_singleton.1 choice
    · cases List.mem_singleton.1 last
  · intro empty
    exact absurd empty (List.append_ne_nil_of_right_ne_nil _ (List.cons_ne_nil _ _))
  · intro enabled fresh _
    obtain ⟨note, rest, rfl⟩ := List.exists_cons_of_ne_nil (first enabled fresh)
    obtain ⟨line, rfl⟩ := skipped note List.mem_cons_self
    exact ⟨line, rest ++ select ++ [.command argv], rfl⟩
  · intro record last
    rw [List.getLast?_append_of_ne_nil _ (List.cons_ne_nil _ _)] at last
    cases last
    rfl
  · rw [← selected₁]
    exact selects

/-! ### The commands of a unit -/

/-- The client uses the database that the writer has selected. -/
def Synced (client : AofClient σ) (selected : Option ℕ) : Prop := ∀ id ∈ selected, client.db = id

/-- The commands in some records, none of which is `MULTI` or `EXEC`. -/
inductive Writes (server : AofServer σ) : List Record → List (CommandKind × List Bytes) → Prop where
  | nil : Writes server [] []
  | note {line : Bytes} {records : List Record} {commands : List (CommandKind × List Bytes)}
      (rest : Writes server records commands) : Writes server (.note line :: records) commands
  | command {argv : List Bytes} {kind : CommandKind} {records : List Record}
      {commands : List (CommandKind × List Bytes)} (found : server.lookupCommand argv = some kind)
      (plain : kind = .select ∨ kind = .other) (rest : Writes server records commands) :
      Writes server (.command argv :: records) ((kind, argv) :: commands)

variable {records records' : List Record} {commands commands' : List (CommandKind × List Bytes)}

theorem Writes.append (first : Writes server records commands)
    (second : Writes server records' commands') :
    Writes server (records ++ records') (commands ++ commands') := by
  induction first with
  | nil => exact second
  | note _ ih => exact .note ih
  | command found plain _ ih => exact .command found plain ih

theorem Notes.writes {notes : List Record} (skipped : Notes notes) : Writes server notes [] := by
  induction notes with
  | nil => exact .nil
  | cons note notes ih =>
    obtain ⟨⟨line, rfl⟩, others⟩ := List.forall_mem_cons.1 skipped
    exact .note (ih others)

/-- A beginning of the records has a beginning of the commands. -/
theorem Writes.of_append (writes : Writes server (records ++ records') commands) :
    ∃ first second, commands = first ++ second ∧ Writes server records first ∧
      Writes server records' second := by
  induction records generalizing commands with
  | nil => exact ⟨[], commands, rfl, .nil, writes⟩
  | cons record records ih =>
    cases writes with
    | note rest =>
      obtain ⟨first, second, rfl, left, right⟩ := ih rest
      exact ⟨first, second, rfl, .note left, right⟩
    | command found plain rest =>
      obtain ⟨first, second, rfl, left, right⟩ := ih rest
      exact ⟨_ :: first, second, rfl, .command found plain left, right⟩

/-- Inside of a transaction the commands are queued. -/
theorem Writes.replay_queued (writes : Writes server records commands) {client : AofClient σ}
    {queue : List (CommandKind × List Bytes)} (busy : client.queue = some queue) :
    run (replay server) client records =
      some { client with queue := some (queue ++ commands) } := by
  induction writes generalizing client queue with
  | nil =>
    rw [List.append_nil, ← busy]
    rfl
  | note _ ih => exact ih busy
  | @command argv kind records commands found plain _ ih =>
    have queued : replay server client (.command argv) =
        some { client with queue := some (queue ++ [(kind, argv)]) } := by
      dsimp only [replay]
      rw [found, Option.bind_some, if_neg fun nested => by simp [nested.1] at plain,
        runCommand_queued busy plain]
    rw [run_cons, queued, Option.bind_some, ih rfl, List.append_assoc]
    rfl

theorem callQueued_queue {client client' : AofClient σ} {command : CommandKind × List Bytes}
    (ran : callQueued server client command = some client') : client'.queue = client.queue := by
  obtain ⟨kind, argv⟩ := command
  cases kind with
  | multi =>
    cases ran
    rfl
  | exec =>
    cases ran
    rfl
  | select => exact selectCommand_queue ran
  | other =>
    cases ran
    rfl

/-- Outside of a transaction they are run. -/
theorem Writes.replay_idle (writes : Writes server records commands) {client : AofClient σ}
    (idle : client.queue = none) :
    run (replay server) client records = run (callQueued server) client commands := by
  induction writes generalizing client with
  | nil => rfl
  | note _ ih => exact ih idle
  | @command argv kind records commands found plain _ ih =>
    have same : replay server client (.command argv) = callQueued server client (kind, argv) := by
      dsimp only [replay]
      rw [found, Option.bind_some, if_neg fun nested => nested.2 idle, runCommand_idle idle plain]
    rw [run_cons, run_cons, same]
    exact Option.bind_congr fun client' ran => ih ((callQueued_queue ran).trans idle)

/-! ### The effect of a unit -/

/-- The commands have this effect on the data. -/
def Applies (server : AofServer σ) (selected : Option ℕ)
    (commands : List (CommandKind × List Bytes))
    (selected' : Option ℕ) (effect : σ → σ) : Prop :=
  ∀ client : AofClient σ, Synced client selected →
    ∃ client', run (callQueued server) client commands = some client' ∧
      client'.queue = client.queue ∧ client'.data = effect client.data ∧ Synced client' selected'

theorem Applies.trans {selected selected' selected'' : Option ℕ} {effect effect' : σ → σ}
    (first : Applies server selected commands selected' effect)
    (second : Applies server selected' commands' selected'' effect') :
    Applies server selected (commands ++ commands') selected''
      (fun data => effect' (effect data)) := by
  intro client synced
  obtain ⟨client₁, ran₁, queue₁, data₁, synced₁⟩ := first client synced
  obtain ⟨client₂, ran₂, queue₂, data₂, synced₂⟩ := second client₁ synced₁
  refine ⟨client₂, ?_, queue₂.trans queue₁, data₂.trans (by rw [data₁]), synced₂⟩
  rw [run_append, ran₁, Option.bind_some, ran₂]

theorem callQueued_select (ready : server.Ready) (client : AofClient σ) {id : ℕ}
    (valid : id < server.dbnum) :
    callQueued server client (.select, [literal "SELECT", decimalText id]) =
      some { client with db := id } := by
  have dbnum := ready.dbnum
  have number : string2ll (decimalText id) = some (id : ℤ) := by
    rw [INT_MAX] at dbnum
    rw [string2ll_eq_some]
    exact ⟨by omega, (if_neg (by omega)).symm⟩
  dsimp only [callQueued, selectCommand]
  rw [number]
  dsimp only
  rw [if_pos (by omega), Int.toNat_natCast]

variable (server) in
/-- What an operation does with the data, if it is for the append only file. -/
def opEffect (data : σ) (op : RedisOp) : σ :=
  if op.aof then op.dbid.elim data fun id => server.effect id op.argv data else data

/-- An operation that can be written and loaded. -/
def Loadable (server : AofServer σ) (op : RedisOp) : Prop :=
  op.aof = true → (∃ id, op.dbid = some id ∧ id < server.dbnum) ∧ Fits server op.argv ∧
    server.lookupCommand op.argv = some .other

/-- The selection in front of a command. -/
theorem Selects.spec (ready : server.Ready) {selected selected' : Option ℕ} {id : ℕ}
    {select : List Record} (valid : id < server.dbnum)
    (selects : Selects selected (some id) select selected') :
    selected' = some id ∧ ∃ commands, Writes server select commands ∧
      ∀ client : AofClient σ, Synced client selected →
        run (callQueued server) client commands = some { client with db := id } ∧
        ∀ first, first <+: commands →
          ∃ client', run (callQueued server) client first = some client' ∧
            client'.data = client.data := by
  rcases selects with ⟨rfl, rfl, before⟩ | ⟨_, ⟨⟩, rfl, rfl⟩
  · refine ⟨before id rfl, [], .nil, fun client synced => ⟨?_, fun first cut => ?_⟩⟩
    · rw [← synced id (before id rfl)]
      rfl
    · rw [List.prefix_nil.1 cut]
      exact ⟨client, rfl, rfl⟩
  · refine ⟨rfl, [(.select, _)], .command (ready.select id) (Or.inl rfl) .nil, fun client _ => ?_⟩
    have chosen : run (callQueued server) client [(.select, [literal "SELECT", decimalText id])] =
        some { client with db := id } := by
      rw [run_cons, callQueued_select ready client valid]
      rfl
    refine ⟨chosen, fun first cut => ?_⟩
    rcases List.prefix_cons_iff.1 cut with rfl | ⟨rest, rfl, empty⟩
    · exact ⟨client, rfl, rfl⟩
    · rw [List.prefix_nil.1 empty]
      exact ⟨_, chosen, rfl⟩

/-- What the writer appends for an operation.  Without the last record it has no effect. -/
structure EmitsOp (server : AofServer σ) (aof aof' : AofWriter) (op : RedisOp)
    (records : List Record)
    (commands : List (CommandKind × List Bytes)) : Prop where
  emits : Emits server aof aof' records
  writes : Writes server records commands
  applies : Applies server aof.selectedDb commands aof'.selectedDb (opEffect server · op)
  cut : ∀ first record rest, records = first ++ record :: rest →
    ∀ client : AofClient σ, Synced client aof.selectedDb →
      ∃ commands client', Writes server first commands ∧
        run (callQueued server) client commands = some client' ∧ client'.data = client.data

theorem propagateNow_spec {unixtime : ℤ} {op : RedisOp} (ready : server.Ready)
    (time : 0 < unixtime ∧ unixtime < 2 ^ 63) (loadable : Loadable server op) (aof : AofWriter) :
    ∃ aof' records commands, propagateNow server.dbnum unixtime aof op = some aof' ∧
      EmitsOp server aof aof' op records commands := by
  rw [propagateNow]
  by_cases wanted : op.aof = true
  · obtain ⟨⟨id, database, valid⟩, fits, found⟩ := loadable wanted
    have all_valid : ∀ id ∈ op.dbid, id < server.dbnum := by
      rw [database]
      rintro _ ⟨⟩
      exact valid
    obtain ⟨aof', notes, select, fed, emits, skipped, selects⟩ :=
      feed_emits ready time all_valid fits aof
    rw [database] at selects
    obtain ⟨selected, commands, writes, chosen⟩ := selects.spec ready valid
    have prepared : Writes server (notes ++ select) commands := skipped.writes.append writes
    refine ⟨aof', _, commands ++ [(.other, op.argv)], ?_, emits, ?_, fun client synced => ?_, ?_⟩
    · rw [if_pos wanted, fed]
    · exact prepared.append (.command found (Or.inr rfl) .nil)
    · refine ⟨{ client with db := id, data := server.effect id op.argv client.data }, ?_, rfl,
        ?_, ?_⟩
      · rw [run_append, (chosen client synced).1]
        rfl
      · dsimp only [opEffect]
        rw [if_pos wanted, database]
        rfl
      · rw [selected]
        rintro _ ⟨⟩
        rfl
    · intro first record rest split client synced
      have inside : first <+: notes ++ select := by
        refine (List.prefix_concat_iff.1 ⟨record :: rest, split.symm⟩).resolve_left fun same => ?_
        rw [same] at split
        cases List.self_eq_append_right.1 split
      obtain ⟨others, same⟩ := inside
      rw [← same] at prepared
      obtain ⟨first_commands, second, rfl, begins, -⟩ := prepared.of_append
      obtain ⟨client', ran, unchanged⟩ :=
        (chosen client synced).2 first_commands (List.prefix_append _ _)
      exact ⟨first_commands, client', begins, ran, unchanged⟩
  · refine ⟨aof, [], [], if_neg wanted, emits_nil aof, .nil, fun client synced => ?_, ?_⟩
    · refine ⟨client, rfl, rfl, ?_, synced⟩
      dsimp only [opEffect]
      rw [if_neg wanted]
    · intro first record rest split
      exact absurd split.symm (List.append_ne_nil_of_right_ne_nil _ (List.cons_ne_nil _ _))

theorem propagate_ops {unixtime : ℤ} {ops : List RedisOp} (ready : server.Ready)
    (time : 0 < unixtime ∧ unixtime < 2 ^ 63) (loadable : ∀ op ∈ ops, Loadable server op)
    (aof : AofWriter) :
    ∃ aof' records commands, run (propagateNow server.dbnum unixtime) aof ops = some aof' ∧
      Emits server aof aof' records ∧ Writes server records commands ∧
      Applies server aof.selectedDb commands aof'.selectedDb
        (fun data => ops.foldl (opEffect server) data) := by
  induction ops generalizing aof with
  | nil => exact ⟨aof, [], [], rfl, emits_nil aof, .nil, fun client synced =>
      ⟨client, rfl, rfl, rfl, synced⟩⟩
  | cons op ops ih =>
    obtain ⟨first, others⟩ := List.forall_mem_cons.1 loadable
    obtain ⟨aof₁, records₁, commands₁, fed, spec⟩ := propagateNow_spec ready time first aof
    obtain ⟨aof₂, records₂, commands₂, ran, emits, writes, applies⟩ := ih others aof₁
    refine ⟨aof₂, records₁ ++ records₂, commands₁ ++ commands₂, ?_, spec.emits.trans emits,
      spec.writes.append writes, spec.applies.trans applies⟩
    rw [run_cons, fed, Option.bind_some, ran]

/-! ### Execution units -/

variable (server) in
def batchEffect (data : σ) (batch : Batch) : σ := batch.ops.foldl (opEffect server) data

structure Writable (server : AofServer σ) (batch : Batch) : Prop where
  time : 0 < batch.unixtime ∧ batch.unixtime < 2 ^ 63
  ops : ∀ op ∈ batch.ops, Loadable server op

/-- The parts of a batch that are written as one: all of it, if it is a transaction. -/
def Batch.units (batch : Batch) : List Batch :=
  if batch.touchesArbitraryKeys then batch.ops.map fun op => { batch with ops := [op] } else [batch]

/-- What the writer appends for an execution unit.  Without the last record it has no effect. -/
structure EmitsUnit (server : AofServer σ) (aof aof' : AofWriter) (batch : Batch)
    (records : List Record) : Prop where
  emits : Emits server aof aof' records
  replays : ∀ client : AofClient σ, client.queue = none → Synced client aof.selectedDb →
    ∃ client', run (replay server) client records = some client' ∧ client'.queue = none ∧
      client'.data = batchEffect server client.data batch ∧ Synced client' aof'.selectedDb
  cut : ∀ first record rest, records = first ++ record :: rest →
    ∀ client : AofClient σ, client.queue = none → Synced client aof.selectedDb →
      ∃ client', run (replay server) client first = some client' ∧ client'.data = client.data

/-- A single operation is a unit. -/
theorem EmitsOp.unit {op : RedisOp} {batch : Batch} (single : batch.ops = [op])
    (spec : EmitsOp server aof aof' op records commands) :
    EmitsUnit server aof aof' batch records where
  emits := spec.emits
  replays client idle synced := by
    obtain ⟨client', ran, queue, effect, synced'⟩ := spec.applies client synced
    refine ⟨client', (spec.writes.replay_idle idle).trans ran, queue.trans idle, ?_, synced'⟩
    rw [batchEffect, single]
    exact effect
  cut first record rest split client idle synced := by
    obtain ⟨commands, client', writes, ran, unchanged⟩ :=
      spec.cut first record rest split client synced
    exact ⟨client', (writes.replay_idle idle).trans ran, unchanged⟩

theorem fits_word (ready : server.Ready) {word : Bytes} (short : word.length ≤ 64) :
    Fits server [word] where
  nonempty := List.cons_ne_nil _ _
  count := by
    show 1 ≤ INT_MAX
    decide
  memory := by
    have memory := ready.memory
    show 8 * 1 ≤ server.memory
    omega
  lengths arg member := by
    have memory := ready.memory
    rw [List.mem_singleton.1 member]
    omega

/-- `MULTI` and `EXEC` are written without a database. -/
theorem propagateNow_word {unixtime : ℤ} {word : Bytes} (ready : server.Ready)
    (time : 0 < unixtime ∧ unixtime < 2 ^ 63) (short : word.length ≤ 64) (aof : AofWriter) :
    ∃ aof' notes, propagateNow server.dbnum unixtime aof ⟨none, [word], true⟩ = some aof' ∧
      Emits server aof aof' (notes ++ [.command [word]]) ∧ Notes notes ∧
      aof'.selectedDb = aof.selectedDb := by
  obtain ⟨aof', notes, select, fed, emits, skipped, selects⟩ :=
    feed_emits ready time (show ∀ id ∈ none, id < server.dbnum by rintro _ ⟨⟩)
      (fits_word ready short) aof
  rcases selects with ⟨rfl, selected, -⟩ | ⟨_, ⟨⟩, -⟩
  rw [List.append_nil] at emits
  exact ⟨aof', notes, fed, emits, skipped, selected⟩

/-- After `MULTI` the commands are queued. -/
theorem replay_multi (ready : server.Ready) {notes : List Record} (skipped : Notes notes)
    {client : AofClient σ} (idle : client.queue = none) :
    run (replay server) client (notes ++ [.command [literal "MULTI"]]) =
      some { client with queue := some [] } := by
  rw [run_append, skipped.replay, Option.bind_some, run_cons]
  dsimp only [replay]
  rw [ready.multi, Option.bind_some, if_neg fun nested => nested.2 idle]
  obtain ⟨data, db, queue⟩ := client
  cases idle
  rfl

/-- Several operations are written as a transaction, which is run as a whole or not at all. -/
theorem transaction_spec {batch : Batch} (ready : server.Ready) (writable : Writable server batch)
    (aof : AofWriter) :
    ∃ aof' records, run (propagateNow server.dbnum batch.unixtime) aof
        (multiOp :: batch.ops ++ [execOp]) = some aof' ∧
      EmitsUnit server aof aof' batch records := by
  have multi_short : (literal "MULTI").length ≤ 64 := by decide +kernel
  have exec_short : (literal "EXEC").length ≤ 64 := by decide +kernel
  obtain ⟨aof₁, notes₁, fed₁, emits₁, skipped₁, selected₁⟩ :=
    propagateNow_word ready writable.time multi_short aof
  obtain ⟨aof₂, body, commands, fed₂, emits₂, writes, applies⟩ :=
    propagate_ops ready writable.time writable.ops aof₁
  obtain ⟨aof₃, notes₃, fed₃, emits₃, skipped₃, selected₃⟩ :=
    propagateNow_word ready writable.time exec_short aof₂
  rw [selected₁] at applies
  have queued : Writes server (body ++ notes₃) commands := by
    have both : Writes server (body ++ notes₃) (commands ++ []) := writes.append skipped₃.writes
    rwa [List.append_nil] at both
  refine ⟨aof₃, _, ?_, (emits₁.trans emits₂).trans emits₃, fun client idle synced => ?_, ?_⟩
  · rw [List.cons_append, run_cons, multiOp, fed₁, Option.bind_some, run_append, fed₂,
      Option.bind_some, run_cons, execOp, fed₃]
    rfl
  · obtain ⟨client', ran, -, effect, synced'⟩ :=
      applies { client with queue := some commands } synced
    refine ⟨{ client' with queue := none }, ?_, rfl, effect, ?_⟩
    · rw [run_append, run_append, replay_multi ready skipped₁ idle, Option.bind_some,
        writes.replay_queued rfl, Option.bind_some, run_append, skipped₃.replay, Option.bind_some,
        run_cons]
      dsimp only [replay]
      rw [ready.exec, Option.bind_some, if_neg (by simp)]
      dsimp only [runCommand]
      rw [List.nil_append, ran]
      rfl
    · rw [selected₃]
      exact synced'
  · intro first record rest split client idle synced
    have shape : notes₁ ++ [Record.command [literal "MULTI"]] ++ body ++
        (notes₃ ++ [.command [literal "EXEC"]]) =
          notes₁ ++ [.command [literal "MULTI"]] ++ (body ++ notes₃) ++
            [.command [literal "EXEC"]] := by
      simp only [List.append_assoc]
    rw [shape] at split
    have inside : first <+: notes₁ ++ [.command [literal "MULTI"]] ++ (body ++ notes₃) := by
      refine (List.prefix_concat_iff.1 ⟨record :: rest, split.symm⟩).resolve_left fun same => ?_
      rw [same] at split
      cases List.self_eq_append_right.1 split
    rcases prefix_append_cases inside with ⟨before, short⟩ | ⟨later, rfl, after⟩
    · have notes := (List.prefix_concat_iff.1 before).resolve_left short
      have skipped : Notes first := fun note member => skipped₁ note (notes.subset member)
      exact ⟨client, skipped.replay client, rfl⟩
    · obtain ⟨others, same⟩ := after
      rw [← same] at queued
      obtain ⟨commands₁, _, -, begins, -⟩ := queued.of_append
      refine ⟨{ client with queue := some ([] ++ commands₁) }, ?_, rfl⟩
      rw [run_append, replay_multi ready skipped₁ idle, Option.bind_some, begins.replay_queued rfl]

/-- Every unit is run as a whole or not at all. -/
theorem unit_spec {batch : Batch} (ready : server.Ready) (writable : Writable server batch)
    (atomic : batch.touchesArbitraryKeys = false ∨ batch.ops.length ≤ 1) (aof : AofWriter) :
    ∃ aof' records, propagatePendingCommands server.dbnum aof batch = some aof' ∧
      EmitsUnit server aof aof' batch records := by
  rw [propagatePendingCommands]
  by_cases several : batch.ops.length > 1
  · have together : batch.touchesArbitraryKeys = false :=
      atomic.resolve_right (not_le.2 several)
    rw [if_pos ⟨several, by rw [together]; exact Bool.false_ne_true⟩]
    exact transaction_spec ready writable aof
  · rw [if_neg fun both => several both.1]
    match ops : batch.ops with
    | [] =>
      refine ⟨aof, [], rfl, emits_nil aof, fun client idle synced => ?_, ?_⟩
      · refine ⟨client, rfl, idle, ?_, synced⟩
        rw [batchEffect, ops]
        rfl
      · intro first record rest split
        exact absurd split.symm (List.append_ne_nil_of_right_ne_nil _ (List.cons_ne_nil _ _))
    | [op] =>
      have loadable := writable.ops op (by rw [ops]; exact List.mem_singleton_self op)
      obtain ⟨aof', records, commands, fed, spec⟩ :=
        propagateNow_spec ready writable.time loadable aof
      refine ⟨aof', records, ?_, spec.unit ops⟩
      rw [run_cons, fed]
      rfl
    | _ :: _ :: rest =>
      rw [ops] at several
      exact absurd (Nat.succ_le_succ (Nat.succ_le_succ (Nat.zero_le rest.length))) several

theorem mem_units {batch unit : Batch} (writable : Writable server batch)
    (member : unit ∈ batch.units) :
    Writable server unit ∧ (unit.touchesArbitraryKeys = false ∨ unit.ops.length ≤ 1) := by
  rw [Batch.units] at member
  split_ifs at member with arbitrary
  · obtain ⟨op, inside, rfl⟩ := List.mem_map.1 member
    refine ⟨⟨writable.time, fun other same => ?_⟩, Or.inr (le_refl 1)⟩
    rw [List.mem_singleton.1 same]
    exact writable.ops op inside
  · rw [List.mem_singleton.1 member]
    exact ⟨writable, Or.inl (Bool.eq_false_of_not_eq_true arbitrary)⟩

/-- A batch is written unit by unit. -/
theorem propagate_units (dbnum : ℕ) (aof : AofWriter) (batch : Batch) :
    propagatePendingCommands dbnum aof batch =
      run (propagatePendingCommands dbnum) aof batch.units := by
  rw [Batch.units]
  by_cases arbitrary : batch.touchesArbitraryKeys = true
  · rw [if_pos arbitrary, propagatePendingCommands, if_neg fun both => both.2 arbitrary]
    induction batch.ops generalizing aof with
    | nil => rfl
    | cons op ops ih =>
      rw [run_cons, List.map_cons, run_cons, propagatePendingCommands,
        if_neg fun both => both.2 arbitrary, run_cons, Option.bind_assoc]
      exact Option.bind_congr fun aof' _ => ih aof'
  · rw [if_neg arbitrary, run_cons]
    cases propagatePendingCommands dbnum aof batch <;> rfl

theorem run_units (dbnum : ℕ) (aof : AofWriter) (batches : List Batch) :
    run (propagatePendingCommands dbnum) aof batches =
      run (propagatePendingCommands dbnum) aof (batches.flatMap Batch.units) := by
  induction batches generalizing aof with
  | nil => rfl
  | cons batch batches ih =>
    rw [run_cons, List.flatMap_cons, run_append, ← propagate_units]
    exact Option.bind_congr fun aof' _ => ih aof'

/-! ### Crashes -/

/-- The cut of a file of records. -/
theorem cut_records {file : Bytes} (cut : file <+: records.flatMap Record.text)
    (missing : file ≠ records.flatMap Record.text) :
    ∃ first record rest tail, records = first ++ record :: rest ∧
      file = first.flatMap Record.text ++ tail ∧ tail <+: record.text ∧ tail ≠ record.text := by
  induction records generalizing file with
  | nil => exact absurd (List.prefix_nil.1 cut) missing
  | cons record records ih =>
    rw [List.flatMap_cons] at cut missing
    rcases prefix_append_cases cut with ⟨inside, short⟩ | ⟨later, rfl, after⟩
    · exact ⟨[], record, records, file, rfl, rfl, inside, short⟩
    · obtain ⟨first, other, rest, tail, rfl, rfl, inside, short⟩ :=
        ih after fun same => missing (by rw [same])
      refine ⟨record :: first, other, rest, tail, rfl, ?_, inside, short⟩
      rw [List.flatMap_cons, List.append_assoc]

/-- The units that are complete in a file with `length` bytes after what `aof` has written. -/
def Complete (dbnum : ℕ) (aof : AofWriter) (units : List Batch) (length k : ℕ) : Prop :=
  k ≤ units.length ∧
    (∃ aof', run (propagatePendingCommands dbnum) aof (units.take k) = some aof' ∧
      aof'.buf.length ≤ aof.buf.length + length) ∧
    (k < units.length →
      ∃ aof', run (propagatePendingCommands dbnum) aof (units.take (k + 1)) = some aof' ∧
        aof.buf.length + length < aof'.buf.length)

/-- All units are written and replayed. -/
theorem units_replay {units : List Batch} (ready : server.Ready)
    (writable : ∀ unit ∈ units, Writable server unit ∧
      (unit.touchesArbitraryKeys = false ∨ unit.ops.length ≤ 1)) (aof : AofWriter) :
    ∃ aof' records, run (propagatePendingCommands server.dbnum) aof units = some aof' ∧
      Emits server aof aof' records ∧
      ∀ client : AofClient σ, client.queue = none → Synced client aof.selectedDb →
        (∃ client', run (replay server) client records = some client' ∧ client'.queue = none ∧
          client'.data = units.foldl (batchEffect server) client.data) ∧
        ∀ file, file <+: records.flatMap Record.text →
          ∃ first tail client' k, file = first.flatMap Record.text ++ tail ∧ first <+: records ∧
            (tail = [] ∨ ∃ record ∈ records, tail <+: record.text ∧ tail ≠ record.text) ∧
            run (replay server) client first = some client' ∧
            client'.data = (units.take k).foldl (batchEffect server) client.data ∧
            Complete server.dbnum aof units file.length k := by
  induction units generalizing aof with
  | nil =>
    refine ⟨aof, [], rfl, emits_nil aof, fun client idle synced => ⟨⟨client, rfl, idle, rfl⟩, ?_⟩⟩
    intro file cut
    obtain rfl := List.prefix_nil.1 cut
    exact ⟨[], [], client, 0, rfl, List.prefix_refl _, Or.inl rfl, rfl, rfl, le_refl 0,
      ⟨aof, rfl, le_refl _⟩, fun more => absurd more (lt_irrefl 0)⟩
  | cons unit units ih =>
    obtain ⟨⟨first_writable, atomic⟩, others⟩ := List.forall_mem_cons.1 writable
    obtain ⟨aof₁, records₁, wrote, spec⟩ := unit_spec ready first_writable atomic aof
    obtain ⟨aof₂, records₂, ran, emits, rest⟩ := ih others aof₁
    refine ⟨aof₂, records₁ ++ records₂, ?_, spec.emits.trans emits, fun client idle synced => ?_⟩
    · rw [run_cons, wrote, Option.bind_some, ran]
    obtain ⟨client₁, replayed₁, idle₁, data₁, synced₁⟩ := spec.replays client idle synced
    obtain ⟨⟨client₂, replayed₂, idle₂, data₂⟩, cuts⟩ := rest client₁ idle₁ synced₁
    have start (more : List Record) :
        run (replay server) client (records₁ ++ more) = run (replay server) client₁ more := by
      rw [run_append, replayed₁, Option.bind_some]
    refine ⟨⟨client₂, (start records₂).trans replayed₂, idle₂, ?_⟩, fun file cut => ?_⟩
    · rw [data₂, data₁, List.foldl_cons]
    have length₁ : aof₁.buf.length = aof.buf.length + (records₁.flatMap Record.text).length := by
      rw [spec.emits.buf, List.length_append]
    rw [List.flatMap_append] at cut
    rcases prefix_append_cases cut with ⟨inside, short⟩ | ⟨later, rfl, after⟩
    · -- the first unit is not complete
      obtain ⟨first, record, more, tail, rfl, rfl, torn, missing⟩ := cut_records inside short
      obtain ⟨client', replayed, unchanged⟩ := spec.cut first record more rfl client idle synced
      have shorter := lt_of_le_of_ne inside.length_le fun same => short (inside.eq_of_length same)
      refine ⟨first, tail, client', 0, rfl, ?_, Or.inr ⟨record, ?_, torn, missing⟩, replayed,
        unchanged, Nat.zero_le _, ⟨aof, rfl, Nat.le_add_right _ _⟩, fun _ => ⟨aof₁, ?_, ?_⟩⟩
      · rw [List.append_assoc]
        exact List.prefix_append _ _
      · simp
      · rw [List.take_succ_cons, run_cons, wrote]
        rfl
      · omega
    · obtain ⟨first, tail, client', k, rfl, part, torn, replayed, effect, bound,
        ⟨aofₖ, ranₖ, lower⟩, upper⟩ :=
        cuts later after
      refine ⟨records₁ ++ first, tail, client', k + 1, ?_, ?_, ?_, (start first).trans replayed, ?_,
        Nat.succ_le_succ bound, ⟨aofₖ, ?_, ?_⟩, fun more => ?_⟩
      · rw [List.flatMap_append, List.append_assoc]
      · exact (List.prefix_append_right_inj records₁).2 part
      · refine torn.imp id fun ⟨record, member, cuts⟩ =>
          ⟨record, List.mem_append_right _ member, cuts⟩
      · rw [effect, data₁, List.take_succ_cons, List.foldl_cons]
      · rw [List.take_succ_cons, run_cons, wrote, Option.bind_some, ranₖ]
      · rw [List.length_append]
        omega
      · obtain ⟨aof', ran', above⟩ := upper (Nat.lt_of_succ_lt_succ more)
        refine ⟨aof', ?_, ?_⟩
        · rw [List.take_succ_cons, run_cons, wrote, Option.bind_some, ran']
        · rw [List.length_append]
          omega

/-- A writer that has just been started. -/
structure AofWriter.Fresh (aof : AofWriter) : Prop where
  buf : aof.buf = []
  selected : aof.selectedDb = none
  time : aof.curTimestamp = 0

theorem synced_none (client : AofClient σ) : Synced client none := by rintro _ ⟨⟩

theorem flatMap_text_eq_nil {tail : Bytes} (empty : records.flatMap Record.text ++ tail = []) :
    records = [] ∧ tail = [] := by
  obtain ⟨texts, rfl⟩ := List.append_eq_nil_iff.1 empty
  refine ⟨?_, rfl⟩
  cases records with
  | nil => rfl
  | cons record records =>
    exact absurd (List.append_eq_nil_iff.1 texts).1 record.text_ne_nil

theorem units_writable {batches : List Batch}
    (writable : ∀ batch ∈ batches, Writable server batch) :
    ∀ unit ∈ batches.flatMap Batch.units, Writable server unit ∧
      (unit.touchesArbitraryKeys = false ∨ unit.ops.length ≤ 1) := by
  intro unit member
  obtain ⟨batch, inside, part⟩ := List.mem_flatMap.1 member
  exact mem_units (writable batch inside) part

/-- What is written by a fresh writer and then cut, as records. -/
theorem crash_records {batches : List Batch} {file : Bytes} (ready : server.Ready)
    (writable : ∀ batch ∈ batches, Writable server batch) (fresh : aof.Fresh)
    (wrote : run (propagatePendingCommands server.dbnum) aof batches = some aof')
    (cut : file <+: aof'.buf) (data : σ) :
    ∃ records tail client k, file = records.flatMap Record.text ++ tail ∧
      (∀ record ∈ records, record.Readable server) ∧ Torn server tail ∧
      (tail.head? = some (ascii '#') → tail.length ≤ 40 ∧ 10 ∉ tail ∧ aof.timestampEnabled = true) ∧
      run (replay server) (.start data) records = some client ∧
      client.data = ((batches.flatMap Batch.units).take k).foldl (batchEffect server) data ∧
      Complete server.dbnum aof (batches.flatMap Batch.units) file.length k := by
  obtain ⟨last, records, ran, emits, cuts⟩ := units_replay ready (units_writable writable) aof
  rw [run_units, ran, Option.some.injEq] at wrote
  rw [← wrote, emits.buf, fresh.buf, List.nil_append] at cut
  obtain ⟨first, tail, client, k, text, part, torn, replayed, effect, complete⟩ :=
    (cuts (.start data) rfl (by rw [fresh.selected]; exact synced_none _)).2 file cut
  refine ⟨first, tail, client, k, text,
    fun record member => emits.readable record (part.subset member),
    torn.imp id fun ⟨record, member, cuts⟩ => ⟨record, emits.readable record member, cuts⟩, ?_,
    replayed, effect, complete⟩
  intro mark
  rcases torn with rfl | ⟨record, member, inside, missing⟩
  · cases mark
  · cases record with
    | note line =>
      obtain ⟨short, enabled⟩ := emits.notes line member
      have clean := (emits.readable _ member).2.1
      have inside := (List.prefix_concat_iff.1 inside).resolve_left missing
      exact ⟨inside.length_le.trans short.le, fun newline => clean (inside.subset newline), enabled⟩
    | command argv =>
      have nonempty : tail ≠ [] := by
        rintro rfl
        cases mark
      obtain ⟨q, whole⟩ := inside
      rw [← List.head?_append_of_ne_nil _ nonempty, whole] at mark
      exact absurd (show some (ascii '*') = some (ascii '#') from mark) (by decide)

/-- **Whatever is on the disk after a crash is loaded, and each execution unit takes effect as a
whole or not at all.**  The units that take effect are those that are complete in the file. -/
theorem aof_atomic {batches : List Batch} (ready : server.Ready) (truncating : server.loadTruncated)
    (writable : ∀ batch ∈ batches, Writable server batch) (fresh : aof.Fresh) (data : σ) :
    ∃ aof', run (propagatePendingCommands server.dbnum) aof batches = some aof' ∧
      ∀ file, file <+: aof'.buf →
        ∃ result client k, loadSingleAppendOnlyFile server data file = some (result, client) ∧
          result ≠ .failed ∧ Complete server.dbnum aof (batches.flatMap Batch.units) file.length k ∧
          client.data = ((batches.flatMap Batch.units).take k).foldl (batchEffect server) data := by
  obtain ⟨aof', -, ran, -⟩ := units_replay ready (units_writable writable) aof
  rw [← run_units] at ran
  refine ⟨aof', ran, fun file cut => ?_⟩
  obtain ⟨records, tail, client, k, rfl, readable, torn, -, replayed, effect, complete⟩ :=
    crash_records ready writable fresh ran cut data
  by_cases empty : records.flatMap Record.text ++ tail = []
  · obtain ⟨rfl, rfl⟩ := flatMap_text_eq_nil empty
    cases replayed
    exact ⟨.empty, .start data, k, rfl, nofun, complete, effect⟩
  · obtain ⟨result, valid, tail', client', recovered⟩ :=
      load_cut truncating readable torn empty replayed
    exact ⟨result, client, k, recovered.load, recovered.sound, complete, effect⟩

/-- A server that counts the commands for each of two databases. -/
def counter : AofServer (ℕ × ℕ) where
  dbnum := 2
  memory := 64
  loadTruncated := true
  lookupCommand argv :=
    if argv.head? = some (literal "MULTI") then some .multi
    else if argv.head? = some (literal "EXEC") then some .exec
    else if argv.head? = some (literal "SELECT") then some .select
    else some .other
  effect id _ data := if id = 0 then (data.1 + 1, data.2) else (data.1, data.2 + 1)
  rdbLoad _ _ := none

theorem ready_counter : counter.Ready where
  memory := le_rfl
  dbnum := by decide
  multi := by decide +kernel
  exec := by decide +kernel
  select id := by
    dsimp only [counter]
    rw [List.head?_cons]
    decide +kernel

def increment (id : ℕ) (key : Bytes) : RedisOp := ⟨some id, [literal "INCR", key], true⟩

theorem loadable_increment {id : ℕ} {key : Bytes} (valid : id < 2) (short : key.length ≤ 64) :
    Loadable counter (increment id key) := by
  refine fun _ =>
    ⟨⟨id, rfl, valid⟩, ⟨nofun, (by decide : 2 ≤ INT_MAX), (by decide : 8 * 2 ≤ 64), ?_⟩,
    ?_⟩
  · rintro arg member
    rcases List.mem_pair.1 member with rfl | rfl
    · decide +kernel
    · exact ⟨short, by omega⟩
  · dsimp only [counter, increment]
    rw [List.head?_cons]
    decide +kernel

/-- A command for each database. -/
def incrementBoth : Batch := ⟨1, false, [increment 0 (literal "a"), increment 1 (literal "b")]⟩

def incrementOne : Batch := ⟨2, false, [increment 1 (literal "c")]⟩

theorem writable_incrementBoth : Writable counter incrementBoth where
  time := by decide
  ops := List.forall_mem_cons.2 ⟨loadable_increment (by decide) (by decide +kernel),
    List.forall_mem_singleton.2 (loadable_increment (by decide) (by decide +kernel))⟩

theorem writable_incrementOne : Writable counter incrementOne where
  time := by decide
  ops := List.forall_mem_singleton.2 (loadable_increment (by decide) (by decide +kernel))

theorem aof_atomic_both : ∃ aof',
    run (propagatePendingCommands 2) ⟨true, 0, none, []⟩ [incrementBoth, incrementOne] = some aof' ∧
      ∀ file, file <+: aof'.buf →
        ∃ result client k, loadSingleAppendOnlyFile counter (0, 0) file = some (result, client) ∧
          result ≠ .failed ∧
          Complete 2 ⟨true, 0, none, []⟩ [incrementBoth, incrementOne] file.length k ∧
          client.data = ([incrementBoth, incrementOne].take k).foldl (batchEffect counter) (0, 0) :=
  aof_atomic ready_counter rfl
    (List.forall_mem_cons.2
      ⟨writable_incrementBoth, List.forall_mem_singleton.2 writable_incrementOne⟩)
    ⟨rfl, rfl, rfl⟩ (0, 0)

end CodeNotes.RedisServer
