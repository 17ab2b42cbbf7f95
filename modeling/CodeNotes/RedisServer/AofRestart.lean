import CodeNotes.RedisServer.AofCrash

/-!
# Going on after a crash

The file that is left after the first start is continued by the next writer.

- `aof_recovers`: if the file that is left does not end inside of a transaction, what is appended to
  it is loaded at the next start.
- `aof_swallows`: a file that ends inside of a command of a transaction is truncated behind the
  command before, so that the transaction stays open, and the next start forgets what has been
  written since.
-/

namespace CodeNotes.RedisServer

open Redis Run

variable {σ : Type*} {server : AofServer σ} {data : σ} {aof aof' : AofWriter}
  {records : List Record}

/-- The file that is left after the first start: records with the effect that was seen then, and
perhaps the beginning of a line that is skipped. -/
theorem left_records {batches : List Batch} {file : Bytes} {result : AofResult}
    {client : AofClient σ} (ready : server.Ready) (truncating : server.loadTruncated)
    (writable : ∀ batch ∈ batches, Writable server batch) (fresh : aof.Fresh)
    (wrote : run (propagatePendingCommands server.dbnum) aof batches = some aof')
    (cut : file <+: aof'.buf)
    (loaded : loadSingleAppendOnlyFile server data file = some (result, client)) :
    ∃ valid tail client', result.file file = valid.flatMap Record.text ++ tail ∧
      (∀ record ∈ valid, record.Readable server) ∧ Torn server tail ∧
      run (replay server) (.start data) valid = some client' ∧ client'.data = client.data ∧
      (tail = [] ∨ client'.queue = none ∧ tail.head? = some (ascii '#') ∧ tail.length ≤ 40 ∧
        10 ∉ tail ∧ aof.timestampEnabled = true) := by
  obtain ⟨records, tail, last, -, rfl, readable, torn, note, replayed, -, -⟩ :=
    crash_records ready writable fresh wrote cut data
  by_cases empty : records.flatMap Record.text ++ tail = []
  · obtain ⟨rfl, rfl⟩ := flatMap_text_eq_nil empty
    cases loaded
    exact ⟨[], [], .start data, rfl, readable, torn, rfl, rfl, Or.inl rfl⟩
  · obtain ⟨result', valid, tail', client', recovered⟩ :=
      load_cut truncating readable torn empty replayed
    rw [recovered.load, Option.some.injEq, Prod.mk.injEq] at loaded
    obtain ⟨rfl, rfl⟩ := loaded
    refine ⟨valid, tail', client', recovered.file,
      fun record member => readable record (recovered.part.subset member), ?_, recovered.replayed,
      recovered.same, ?_⟩
    · rcases recovered.tail with rfl | ⟨rfl, -⟩
      · exact Or.inl rfl
      · exact torn
    · exact recovered.tail.imp id fun ⟨same, idle, mark⟩ => by
        rw [same]
        exact ⟨idle, mark, note mark⟩

/-- The client after the file that is left. -/
theorem load_left {valid : List Record} {tail : Bytes} {client : AofClient σ}
    (truncating : server.loadTruncated) (readable : ∀ record ∈ valid, record.Readable server)
    (torn : Torn server tail) (replayed : run (replay server) (.start data) valid = some client) :
    ∃ result, loadSingleAppendOnlyFile server data (valid.flatMap Record.text ++ tail) =
      some (result, client) := by
  by_cases empty : valid.flatMap Record.text ++ tail = []
  · obtain ⟨rfl, rfl⟩ := flatMap_text_eq_nil empty
    cases replayed
    exact ⟨.empty, rfl⟩
  · obtain ⟨result, _, _, _, recovered⟩ := load_cut truncating readable torn empty replayed
    exact ⟨result, recovered.load⟩

/-- Records that do not end inside of a transaction are loaded without a complaint. -/
theorem load_ok {tail : Bytes} {client : AofClient σ} (truncating : server.loadTruncated)
    (readable : ∀ record ∈ records, record.Readable server) (torn : Torn server tail)
    (mark : tail = [] ∨ tail.head? = some (ascii '#'))
    (replayed : run (replay server) (.start data) records = some client)
    (idle : client.queue = none) :
    loadSingleAppendOnlyFile server data (records.flatMap Record.text ++ tail) =
      some (if records.flatMap Record.text ++ tail = [] then .empty else .ok, client) := by
  by_cases empty : records.flatMap Record.text ++ tail = []
  · obtain ⟨rfl, rfl⟩ := flatMap_text_eq_nil empty
    cases replayed
    rfl
  · obtain ⟨result, _, _, _, recovered⟩ := load_cut truncating readable torn empty replayed
    rw [recovered.load, if_neg empty, recovered.ok mark idle]

/-- What a fresh writer appends to the file that is left, as records.  If the file ends with the
beginning of a line that is skipped, the line goes on with the first one that is appended. -/
theorem append_records {valid records : List Record} {tail : Bytes} {client last : AofClient σ}
    (emits : Emits server aof aof' records) (fresh : aof.Fresh)
    (readable : ∀ record ∈ valid, record.Readable server)
    (replayed : run (replay server) (.start data) valid = some client)
    (replayed' : run (replay server) client records = some last) (torn : Torn server tail)
    (note : tail = [] ∨ tail.head? = some (ascii '#') ∧ tail.length ≤ 40 ∧ 10 ∉ tail ∧
      aof.timestampEnabled = true) :
    ∃ all tail', valid.flatMap Record.text ++ tail ++ aof'.buf = all.flatMap Record.text ++ tail' ∧
      (∀ record ∈ all, record.Readable server) ∧ Torn server tail' ∧
      (tail' = [] ∨ tail'.head? = some (ascii '#')) ∧
      run (replay server) (.start data) all = some last := by
  have buf : aof'.buf = records.flatMap Record.text := by
    rw [emits.buf, fresh.buf, List.nil_append]
  rw [buf]
  rcases note with rfl | ⟨mark, short, clean, enabled⟩
  · refine ⟨valid ++ records, [], ?_, ?_, Or.inl rfl, Or.inl rfl, ?_⟩
    · rw [List.append_nil, List.append_nil, List.flatMap_append]
    · exact fun record member => (List.mem_append.1 member).elim (readable record)
        (emits.readable record)
    · rw [run_append, replayed, Option.bind_some, replayed']
  by_cases quiet : records = []
  · rw [quiet, run_nil, Option.some.injEq] at replayed'
    rw [quiet, List.flatMap_nil, List.append_nil, ← replayed']
    exact ⟨valid, tail, rfl, readable, torn, Or.inr mark, replayed⟩
  · obtain ⟨line, rest, rfl⟩ := emits.starts enabled fresh.time quiet
    have long := (emits.notes line List.mem_cons_self).1
    obtain ⟨-, clean', -⟩ := emits.readable _ List.mem_cons_self
    refine ⟨valid ++ .note (tail ++ line) :: rest, [], ?_, ?_, Or.inl rfl, Or.inl rfl, ?_⟩
    · rw [List.append_nil, List.flatMap_append, List.flatMap_cons, List.flatMap_cons, Record.text,
        Record.text]
      simp only [List.append_assoc]
    · intro record member
      rcases List.mem_append.1 member with old | new
      · exact readable record old
      rcases List.mem_cons.1 new with rfl | later
      · refine ⟨?_, fun newline => (List.mem_append.1 newline).elim clean clean', ?_⟩
        · rw [List.length_append]
          omega
        · rw [List.head?_append, mark, Option.some_or]
      · exact emits.readable record (List.mem_cons_of_mem _ later)
    · rw [run_append, replayed, Option.bind_some]
      exact replayed'

/-- What is written for `incrementOne` and `incrementBoth`. -/
def incrementsText : Bytes :=
  literal "*2\r\n$6\r\nSELECT\r\n$1\r\n1\r\n*2\r\n$4\r\nINCR\r\n$1\r\nc\r\n" ++
  literal "*1\r\n$5\r\nMULTI\r\n" ++
  literal "*2\r\n$6\r\nSELECT\r\n$1\r\n0\r\n*2\r\n$4\r\nINCR\r\n$1\r\na\r\n" ++
  literal "*2\r\n$6\r\nSELECT\r\n$1\r\n1\r\n*2\r\n$4\r\nINCR\r\n$1\r\nb\r\n" ++
  literal "*1\r\n$4\r\nEXEC\r\n"

theorem run_increments :
    run (propagatePendingCommands 2) ⟨false, 0, none, []⟩ [incrementOne, incrementBoth] =
      some ⟨false, 0, some 1, incrementsText⟩ := by
  decide +kernel

theorem writable_increments : ∀ batch ∈ [incrementOne, incrementBoth], Writable counter batch :=
  List.forall_mem_cons.2 ⟨writable_incrementOne, List.forall_mem_singleton.2 writable_incrementBoth⟩

/-- The client after the first command of `incrementBoth` has been queued. -/
def incrementing : AofClient (ℕ × ℕ) where
  data := (0, 1)
  db := 1
  queue :=
    some [(.select, [literal "SELECT", literal "0"]), (.other, [literal "INCR", literal "a"])]

theorem load_between :
    loadSingleAppendOnlyFile counter (0, 0) (incrementsText.take 103) =
        some (.truncated 44, incrementing) ∧
      loadSingleAppendOnlyFile counter (0, 0)
          ((AofResult.truncated 44).file (incrementsText.take 103)) =
        some (.ok, { incrementing with queue := none }) := by
  decide +kernel

/-- What is written without `MULTI` and `EXEC`. -/
theorem singles_write {batches : List Batch} (ready : server.Ready)
    (writable : ∀ batch ∈ batches, Writable server batch ∧
      (batch.touchesArbitraryKeys ∨ batch.ops.length ≤ 1)) (aof : AofWriter) :
    ∃ aof' records commands, run (propagatePendingCommands server.dbnum) aof batches = some aof' ∧
      Emits server aof aof' records ∧ Writes server records commands := by
  induction batches generalizing aof with
  | nil => exact ⟨aof, [], [], rfl, emits_nil aof, .nil⟩
  | cons batch batches ih =>
    obtain ⟨⟨first, single⟩, others⟩ := List.forall_mem_cons.1 writable
    obtain ⟨aof₁, records₁, commands₁, ran₁, emits₁, writes₁, -⟩ :=
      propagate_ops ready first.time first.ops aof
    obtain ⟨aof₂, records₂, commands₂, ran₂, emits₂, writes₂⟩ := ih others aof₁
    refine ⟨aof₂, records₁ ++ records₂, commands₁ ++ commands₂, ?_, emits₁.trans emits₂,
      writes₁.append writes₂⟩
    have plain : ¬ (batch.ops.length > 1 ∧ ¬ batch.touchesArbitraryKeys) := by
      rintro ⟨several, transaction⟩
      exact single.elim transaction several.not_ge
    rw [run_cons, propagatePendingCommands, if_neg plain, ran₁, Option.bind_some, ran₂]

/-! ### A transaction that stays open -/

/-- At the next start `file` is truncated to `left`, which ends inside of a transaction.  What is
written after that, command by command, is not loaded at the start after it, and is cut off from the
file. -/
structure Swallows (server : AofServer σ) (data : σ) (file left : Bytes) (client : AofClient σ) :
    Prop where
  load : loadSingleAppendOnlyFile server data file = some (.truncated left.length, client)
  file : (AofResult.truncated left.length).file file = left
  opened : client.queue ≠ none
  again : ∃ result, loadSingleAppendOnlyFile server data left = some (result, client)
  lost : ∀ (writer : AofWriter) (batches : List Batch), writer.Fresh →
    (∀ batch ∈ batches, Writable server batch ∧
      (batch.touchesArbitraryKeys ∨ batch.ops.length ≤ 1)) →
    ∃ more result last, run (propagatePendingCommands server.dbnum) writer batches = some more ∧
      loadSingleAppendOnlyFile server data (left ++ more.buf) = some (result, last) ∧
      last.data = client.data ∧ result.file (left ++ more.buf) <+: left

theorem swallow {valid : List Record} {client : AofClient σ} {writer : AofWriter}
    {batches : List Batch} (ready : server.Ready) (truncating : server.loadTruncated)
    (readable : ∀ record ∈ valid, record.Readable server)
    (replayed : run (replay server) (.start data) valid = some client)
    (opened : client.queue ≠ none) (restarted : writer.Fresh)
    (writable : ∀ batch ∈ batches, Writable server batch ∧
      (batch.touchesArbitraryKeys ∨ batch.ops.length ≤ 1)) :
    ∃ more result last, run (propagatePendingCommands server.dbnum) writer batches = some more ∧
      loadSingleAppendOnlyFile server data (valid.flatMap Record.text ++ more.buf) =
        some (result, last) ∧
      last.data = client.data ∧
      result.file (valid.flatMap Record.text ++ more.buf) <+: valid.flatMap Record.text := by
  obtain ⟨queue, busy⟩ := Option.ne_none_iff_exists'.1 opened
  obtain ⟨more, records, commands, ran, emits, writes⟩ := singles_write ready writable writer
  have all : run (replay server) (.start data) (valid ++ records) =
      some { client with queue := some (queue ++ commands) } := by
    rw [run_append, replayed, Option.bind_some, writes.replay_queued busy]
  have whole : valid.flatMap Record.text ++ more.buf =
      (valid ++ records).flatMap Record.text ++ [] := by
    rw [emits.buf, restarted.buf, List.flatMap_append, List.append_nil, List.nil_append]
  have nonempty : (valid ++ records).flatMap Record.text ++ [] ≠ [] := by
    intro empty
    obtain ⟨none_left, -⟩ := flatMap_text_eq_nil empty
    rw [(List.append_eq_nil_iff.1 none_left).1] at replayed
    cases replayed
    exact opened rfl
  obtain ⟨result, valid', tail', client', recovered⟩ := load_cut truncating
    (fun record member => (List.mem_append.1 member).elim (readable record) (emits.readable record))
    (Or.inl rfl) nonempty all
  have load := recovered.load
  rw [← whole] at load
  refine ⟨more, result, _, ran, load, rfl, ?_⟩
  have tail_nil : tail' = [] := recovered.tail.elim id fun other => other.1
  rw [whole, recovered.file, tail_nil, List.append_nil]
  rcases prefix_append_cases recovered.part with ⟨⟨rest, rfl⟩, -⟩ | ⟨later, rfl, inside⟩
  · rw [List.flatMap_append]
    exact List.prefix_append _ _
  · -- behind the open transaction everything is queued
    obtain ⟨others, same⟩ := inside
    rw [← same] at writes
    obtain ⟨commands₁, _, -, begins, -⟩ := writes.of_append
    have replayed' := recovered.replayed
    rw [run_append, replayed, Option.bind_some, begins.replay_queued busy,
      Option.some.injEq] at replayed'
    have idle := recovered.closed rfl
    rw [← replayed'] at idle
    cases idle

/-- A file that ends inside of a command, with a transaction open, is truncated behind the command
before. -/
theorem swallows_torn {client : AofClient σ} {argv : List Bytes} {part : Bytes}
    (ready : server.Ready) (truncating : server.loadTruncated)
    (readable : ∀ record ∈ records, record.Readable server)
    (replayed : run (replay server) (.start data) records = some client)
    (opened : client.queue ≠ none) (fits : Fits server argv) (nonempty : part ≠ [])
    (cut : part <+: commandText argv)
    (missing : part ≠ commandText argv) :
    Swallows server data (records.flatMap Record.text ++ part)
      ((records.rdropWhile Record.isNote).flatMap Record.text) client := by
  have command : part.head? ≠ some (ascii '#') := by
    obtain ⟨rest, whole⟩ := cut
    rw [← List.head?_append_of_ne_nil _ nonempty, whole]
    show some (ascii '*') ≠ some (ascii '#')
    decide
  have torn : Torn server part := Or.inr ⟨.command argv, fits, cut, missing⟩
  obtain ⟨result, valid, tail', client', recovered⟩ := load_cut truncating readable torn
    (List.append_ne_nil_of_right_ne_nil _ nonempty) replayed
  obtain ⟨rfl, rfl, rfl⟩ := recovered.torn nonempty command
  have readable' : ∀ record ∈ records.rdropWhile Record.isNote, record.Readable server :=
    fun record member => readable record ((List.rdropWhile_prefix _ _).subset member)
  have tail_nil : tail' = [] := recovered.tail.elim id fun other => absurd other.2.2 command
  have left := load_left truncating readable' (Or.inl rfl) recovered.replayed
  have file := recovered.file
  rw [tail_nil, List.append_nil] at file
  rw [List.append_nil] at left
  exact ⟨recovered.load, file, opened, left, fun writer batches fresh writable =>
    swallow ready truncating readable' recovered.replayed opened fresh writable⟩

theorem rdropWhile_notes {notes : List Record} (skipped : Notes notes)
    (ends : ∀ record ∈ records.getLast?, record.isNote = false) :
    (records ++ notes).rdropWhile Record.isNote = records := by
  induction notes using List.reverseRecOn with
  | nil =>
    rw [List.append_nil, List.rdropWhile_eq_self_iff]
    intro nonempty
    rw [ends _ (List.getLast?_eq_some_getLast nonempty)]
    exact Bool.false_ne_true
  | append_singleton notes note ih =>
    obtain ⟨earlier, last⟩ := List.forall_mem_append.1 skipped
    obtain ⟨line, rfl⟩ := last note List.mem_cons_self
    rw [← List.append_assoc, List.rdropWhile_concat_pos _ _ _ rfl, ih earlier]

/-- The lines that are skipped before the command are cut off with it. -/
theorem swallows_noted {notes : List Record} {client : AofClient σ} {argv : List Bytes}
    {part : Bytes} (ready : server.Ready) (truncating : server.loadTruncated)
    (readable : ∀ record ∈ records ++ notes, record.Readable server)
    (replayed : run (replay server) (.start data) (records ++ notes) = some client)
    (opened : client.queue ≠ none) (skipped : Notes notes)
    (ends : ∀ record ∈ records.getLast?, record.isNote = false) (fits : Fits server argv)
    (nonempty : part ≠ []) (cut : part <+: commandText argv) (missing : part ≠ commandText argv) :
    Swallows server data (records.flatMap Record.text ++ notes.flatMap Record.text ++ part)
      (records.flatMap Record.text) client := by
  have torn := swallows_torn ready truncating readable replayed opened fits nonempty cut missing
  rwa [rdropWhile_notes skipped ends, List.flatMap_append] at torn

/-- A selection of a database before the command stays in the file. -/
theorem swallows_selected {client : AofClient σ} {id : ℕ} {argv : List Bytes} {part : Bytes}
    (ready : server.Ready) (truncating : server.loadTruncated)
    (readable : ∀ record ∈ records, record.Readable server)
    (replayed : run (replay server) (.start data) records = some client)
    (opened : client.queue ≠ none) (valid : id < server.dbnum) (fits : Fits server argv)
    (nonempty : part ≠ []) (cut : part <+: commandText argv) (missing : part ≠ commandText argv) :
    ∃ client', client'.data = client.data ∧
      Swallows server data (records.flatMap Record.text ++ (selectRecord id).text ++ part)
        (records.flatMap Record.text ++ (selectRecord id).text) client' := by
  obtain ⟨queue, busy⟩ := Option.ne_none_iff_exists'.1 opened
  have writes : Writes server [selectRecord id] [(.select, [literal "SELECT", decimalText id])] :=
    .command (ready.select id) (Or.inl rfl) .nil
  have queued : run (replay server) (.start data) (records ++ [selectRecord id]) =
      some { client with
        queue := some (queue ++ [(.select, [literal "SELECT", decimalText id])]) } := by
    rw [run_append, replayed, Option.bind_some, writes.replay_queued busy]
  have selectable : (selectRecord id).Readable server := fits_select ready valid
  have torn := swallows_torn ready truncating
    (List.forall_mem_append.2 ⟨readable, List.forall_mem_singleton.2 selectable⟩)
    queued (Option.some_ne_none _) fits nonempty cut missing
  rw [List.rdropWhile_concat_neg _ _ _ Bool.false_ne_true, List.flatMap_append,
    List.flatMap_singleton] at torn
  refine ⟨_, ?_, torn⟩
  rfl

/-! ### The writer inside of a transaction -/

theorem feedTimestamp_buf (unixtime : ℤ) (aof : AofWriter) :
    (feedTimestamp unixtime aof).1.buf = aof.buf := by
  rw [feedTimestamp, genAofTimestampAnnotationIfNeeded]
  split_ifs <;> rfl

theorem feedSelect_buf (dictid : Option ℕ) (aof : AofWriter) :
    (feedSelect dictid aof).1.buf = aof.buf := by
  obtain ⟨aof', select, fed, buf, -⟩ := feedSelect_spec dictid aof
  rw [fed, buf]

theorem propagateNow_extends {dbnum : ℕ} {unixtime : ℤ} {op : RedisOp}
    (fed : propagateNow dbnum unixtime aof op = some aof') : aof.buf <+: aof'.buf := by
  rw [propagateNow] at fed
  split_ifs at fed
  · rw [feedAppendOnlyFile] at fed
    split_ifs at fed
    obtain ⟨text, -, rfl⟩ := Option.map_eq_some_iff.1 fed
    show aof.buf <+: (feedSelect op.dbid (feedTimestamp unixtime aof).1).1.buf ++ text
    rw [feedSelect_buf, feedTimestamp_buf]
    exact List.prefix_append _ _
  · cases fed
    exact List.prefix_refl _

/-- The writer stops inside of a command of a transaction.  After `start` it has written `MULTI` and
some commands of the unit, and then `stamp` and a part of what comes next: the command `op` with its
selection of a database.  The part does not end between these two. -/
structure StopsInside (dbnum : ℕ) (start writer : AofWriter) (unit : Batch) (written : List RedisOp)
    (op : RedisOp) (stamp select part : Bytes) : Prop where
  transaction : unit.ops.length > 1 ∧ ¬ unit.touchesArbitraryKeys
  next : ∃ unwritten, unit.ops ++ [execOp] = written ++ op :: unwritten
  wanted : op.aof = true
  began : run (propagateNow dbnum unit.unixtime) start (multiOp :: written) = some writer
  stamped : (feedTimestamp unit.unixtime writer).2 = stamp
  selected : (feedSelect op.dbid (feedTimestamp unit.unixtime writer).1).2 = select
  cut : ∃ text, catAppendOnlyGenericCommand select op.argv = some text ∧ part <+: text ∧ part ≠ text
  inside : part ≠ [] ∧ part ≠ select

variable {start writer : AofWriter} {unit : Batch} {written : List RedisOp} {op : RedisOp}
  {stamp select part : Bytes}

/-- What the writer has written so far, as records. -/
theorem opened_records {before : List Batch} (ready : server.Ready)
    (writable : ∀ batch ∈ before ++ [unit], Writable server batch) (fresh : aof.Fresh)
    (wrote : run (propagatePendingCommands server.dbnum) aof before = some start)
    (written_ops : written <+: unit.ops)
    (began : run (propagateNow server.dbnum unit.unixtime) start (multiOp :: written) = some writer)
    (data : σ) :
    ∃ records client, Emits server aof writer records ∧
      run (replay server) (.start data) records = some client ∧ client.queue ≠ none ∧
      client.data = (before.flatMap Batch.units).foldl (batchEffect server) data := by
  obtain ⟨earlier, last⟩ := List.forall_mem_append.1 writable
  have writable_unit : Writable server unit := last unit List.mem_cons_self
  have multi_short : (literal "MULTI").length ≤ 64 := by decide +kernel
  obtain ⟨start', records, ran, emits, cuts⟩ :=
    units_replay ready (units_writable earlier) aof
  rw [run_units, ran, Option.some.injEq] at wrote
  subst wrote
  obtain ⟨⟨client, replayed, idle, effect⟩, -⟩ :=
    cuts (.start data) rfl (by rw [fresh.selected]; exact synced_none _)
  obtain ⟨aof₁, notes, fed₁, emits₁, skipped, -⟩ :=
    propagateNow_word ready writable_unit.time multi_short start'
  obtain ⟨aof₂, body, commands, fed₂, emits₂, writes, -⟩ := propagate_ops ready writable_unit.time
    (fun op member => writable_unit.ops op (written_ops.subset member)) aof₁
  rw [run_cons, multiOp, fed₁, Option.bind_some, fed₂, Option.some.injEq] at began
  subst began
  refine ⟨_, { client with queue := some ([] ++ commands) }, (emits.trans emits₁).trans emits₂, ?_,
    Option.some_ne_none _, effect⟩
  rw [run_append, run_append, replayed, Option.bind_some, replay_multi ready skipped idle,
    Option.bind_some, writes.replay_queued rfl]

/-- The next operation can be written. -/
theorem StopsInside.fits {dbnum : ℕ} (ready : server.Ready) (writable : Writable server unit)
    (stops : StopsInside dbnum start writer unit written op stamp select part) :
    (∀ id ∈ op.dbid, id < server.dbnum) ∧ Fits server op.argv := by
  obtain ⟨unwritten, split⟩ := stops.next
  have member : op ∈ unit.ops ++ [execOp] := by simp [split]
  rcases List.mem_append.1 member with inside | last
  · obtain ⟨⟨id, database, valid⟩, fits, -⟩ := writable.ops op inside stops.wanted
    refine ⟨?_, fits⟩
    rw [database]
    rintro _ ⟨⟩
    exact valid
  · rw [List.mem_singleton.1 last]
    exact ⟨by rintro _ ⟨⟩, fits_word ready (by decide +kernel)⟩

theorem StopsInside.written_ops {dbnum : ℕ}
    (stops : StopsInside dbnum start writer unit written op stamp select part) :
    written <+: unit.ops := by
  obtain ⟨unwritten, split⟩ := stops.next
  refine (List.prefix_concat_iff.1 ⟨op :: unwritten, split.symm⟩).resolve_left fun same => ?_
  rw [same] at split
  cases List.self_eq_append_right.1 split

/-- What has been written is a beginning of what is written for the unit. -/
theorem StopsInside.begins {before : List Batch} (ready : server.Ready)
    (writable : Writable server unit)
    (wrote : run (propagatePendingCommands server.dbnum) aof before = some start)
    (stops : StopsInside server.dbnum start writer unit written op stamp select part) :
    ∃ whole, run (propagatePendingCommands server.dbnum) aof (before ++ [unit]) = some whole ∧
      writer.buf ++ stamp ++ part <+: whole.buf := by
  obtain ⟨unwritten, split⟩ := stops.next
  obtain ⟨text, appended, cut, -⟩ := stops.cut
  obtain ⟨valid, fits⟩ := stops.fits ready writable
  obtain ⟨whole, -, ran, -⟩ := transaction_spec ready writable start
  have unit_ran : propagatePendingCommands server.dbnum start unit = some whole := by
    rw [propagatePendingCommands, if_pos stops.transaction, ran]
  have shape : multiOp :: unit.ops ++ [execOp] = (multiOp :: written) ++ op :: unwritten := by
    rw [List.cons_append, split, List.cons_append]
  rw [shape, run_append, stops.began, Option.bind_some, run_cons] at ran
  obtain ⟨next, fed, rest⟩ := Option.bind_eq_some_iff.1 ran
  have later : next.buf <+: whole.buf := run_invariant (I := fun aof => next.buf <+: aof.buf)
    (fun _ _ _ before fed => before.trans (propagateNow_extends fed)) (List.prefix_refl _) rest
  refine ⟨whole, ?_, List.IsPrefix.trans ?_ later⟩
  · rw [run_append, wrote, Option.bind_some, run_cons, unit_ran]
    rfl
  · rw [propagateNow, if_pos stops.wanted, feedAppendOnlyFile, if_pos valid] at fed
    obtain ⟨added, catted, rfl⟩ := Option.map_eq_some_iff.1 fed
    change catAppendOnlyGenericCommand ((feedTimestamp unit.unixtime writer).2 ++
      (feedSelect op.dbid (feedTimestamp unit.unixtime writer).1).2) op.argv = some added at catted
    rw [stops.stamped, stops.selected, fits.cat] at catted
    rw [fits.cat] at appended
    cases catted
    cases appended
    show _ <+: (feedSelect op.dbid (feedTimestamp unit.unixtime writer).1).1.buf ++ _
    rw [feedSelect_buf, feedTimestamp_buf, List.append_assoc stamp, ← List.append_assoc writer.buf]
    exact (List.prefix_append_right_inj _).2 cut

/-- The file up to the command: records, and lines that are skipped. -/
theorem StopsInside.exists_notes {before : List Batch} (ready : server.Ready)
    (writable : ∀ batch ∈ before ++ [unit], Writable server batch) (fresh : aof.Fresh)
    (wrote : run (propagatePendingCommands server.dbnum) aof before = some start)
    (stops : StopsInside server.dbnum start writer unit written op stamp select part) (data : σ) :
    ∃ records notes client, writer.buf = records.flatMap Record.text ∧
      (∀ record ∈ records.getLast?, record.isNote = false) ∧
      stamp = notes.flatMap Record.text ∧ Notes notes ∧
      (∀ record ∈ records ++ notes, record.Readable server) ∧
      run (replay server) (.start data) (records ++ notes) = some client ∧ client.queue ≠ none ∧
      client.data = (before.flatMap Batch.units).foldl (batchEffect server) data := by
  have writable_unit : Writable server unit := writable unit (by simp)
  obtain ⟨records, client, emits, replayed, opened, effect⟩ :=
    opened_records ready writable fresh wrote stops.written_ops stops.began data
  obtain ⟨_, notes, stamped, skipped, -, -, -, readable, -⟩ :=
    feedTimestamp_spec server writable_unit.time writer
  refine ⟨records, notes, client, ?_, emits.ends, ?_, skipped,
    List.forall_mem_append.2 ⟨emits.readable, readable⟩, ?_, opened, effect⟩
  · rw [emits.buf, fresh.buf, List.nil_append]
  · rw [← stops.stamped, stamped]
  · rw [run_append, replayed, Option.bind_some, skipped.replay]

theorem StopsInside.select_cases {dbnum : ℕ} (ready : server.Ready)
    (writable : Writable server unit)
    (stops : StopsInside dbnum start writer unit written op stamp select part) :
    select = [] ∨ ∃ id, id < server.dbnum ∧ select = (selectRecord id).text := by
  obtain ⟨valid, -⟩ := stops.fits ready writable
  obtain ⟨_, choice, chosen, -, -, selects⟩ :=
    feedSelect_spec op.dbid (feedTimestamp unit.unixtime writer).1
  have select_eq : select = choice.flatMap Record.text := by rw [← stops.selected, chosen]
  rcases selects with ⟨rfl, -⟩ | ⟨id, database, rfl, -⟩
  · exact Or.inl select_eq
  · rw [List.flatMap_singleton] at select_eq
    exact Or.inr ⟨id, valid id database, select_eq⟩

/-- **A file that ends inside of a command of a transaction swallows what is appended.**  It is
truncated behind the command before, or behind the selection of a database, and not in front of
`MULTI`, so that the transaction stays open. -/
theorem aof_swallows {before : List Batch} (ready : server.Ready)
    (truncating : server.loadTruncated)
    (writable : ∀ batch ∈ before ++ [unit], Writable server batch) (fresh : aof.Fresh)
    (wrote : run (propagatePendingCommands server.dbnum) aof before = some start)
    (stops : StopsInside server.dbnum start writer unit written op stamp select part) (data : σ) :
    ∃ whole client,
      run (propagatePendingCommands server.dbnum) aof (before ++ [unit]) = some whole ∧
      writer.buf ++ stamp ++ part <+: whole.buf ∧
      client.data = (before.flatMap Batch.units).foldl (batchEffect server) data ∧
      Swallows server data (writer.buf ++ stamp ++ part)
        (if select ≠ [] ∧ select.length < part.length then writer.buf ++ stamp ++ select
          else writer.buf) client := by
  have writable_unit : Writable server unit := writable unit (by simp)
  obtain ⟨whole, ran, begins⟩ := stops.begins ready writable_unit wrote
  obtain ⟨records, notes, client, buf, ends, stamp_eq, skipped, readable, replayed, opened,
    effect⟩ := stops.exists_notes ready writable fresh wrote data
  obtain ⟨-, fits⟩ := stops.fits ready writable_unit
  obtain ⟨text, appended, cut, missing⟩ := stops.cut
  rw [fits.cat] at appended
  cases appended
  have selects := stops.select_cases ready writable_unit
  rw [buf, stamp_eq] at begins ⊢
  refine ⟨whole, ?_⟩
  rcases prefix_append_cases cut with ⟨inside, short⟩ | ⟨r, rfl, inside⟩
  · -- the selection is not complete
    have shorter := inside.length_le
    rcases selects with rfl | ⟨id, valid, rfl⟩
    · exact absurd (List.prefix_nil.1 inside) stops.inside.1
    refine ⟨client, ran, begins, effect, ?_⟩
    rw [if_neg fun longer => absurd longer.2 (not_lt.2 shorter)]
    exact swallows_noted ready truncating readable replayed opened skipped ends
      (fits_select ready valid) stops.inside.1 inside short
  have some_read : r ≠ [] := fun empty => stops.inside.2 (by rw [empty, List.append_nil])
  have not_all : r ≠ commandText op.argv := fun same => missing (by rw [same])
  rcases selects with rfl | ⟨id, valid, rfl⟩
  · refine ⟨client, ran, begins, effect, ?_⟩
    rw [if_neg fun selected => selected.1 rfl, List.nil_append]
    exact swallows_noted ready truncating readable replayed opened skipped ends fits some_read
      inside not_all
  · obtain ⟨client', unchanged, torn⟩ := swallows_selected ready truncating readable replayed opened
      valid fits some_read inside not_all
    have longer : (selectRecord id).text.length < ((selectRecord id).text ++ r).length := by
      have positive := List.length_pos_of_ne_nil some_read
      rw [List.length_append]
      omega
    refine ⟨client', ran, begins, unchanged.trans effect, ?_⟩
    rw [if_pos ⟨Record.text_ne_nil _, longer⟩, ← List.append_assoc]
    rwa [List.flatMap_append] at torn

theorem stopsInside_incrementBoth :
    StopsInside 2 ⟨false, 0, some 1, incrementsText.take 44⟩
      ⟨false, 0, some 0, incrementsText.take 103⟩ incrementBoth [increment 0 (literal "a")]
      (increment 1 (literal "b")) [] (selectText 1) ((selectText 1).take 7) where
  transaction := by decide
  next := ⟨[execOp], rfl⟩
  wanted := rfl
  began := by decide +kernel
  stamped := rfl
  selected := rfl
  cut := ⟨selectText 1 ++ commandText [literal "INCR", literal "b"], by decide +kernel⟩
  inside := by decide +kernel

/-- The file ends inside of the second selection of `incrementBoth`. -/
theorem aof_swallows_inside : ∃ whole client,
    run (propagatePendingCommands 2) ⟨false, 0, none, []⟩ [incrementOne, incrementBoth] =
        some whole ∧
      incrementsText.take 103 ++ [] ++ (selectText 1).take 7 <+: whole.buf ∧ client.data = (0, 1) ∧
      Swallows counter (0, 0) (incrementsText.take 103 ++ [] ++ (selectText 1).take 7)
        (if selectText 1 ≠ [] ∧ (selectText 1).length < ((selectText 1).take 7).length then
          incrementsText.take 103 ++ [] ++ selectText 1 else incrementsText.take 103) client := by
  have wrote : run (propagatePendingCommands 2) ⟨false, 0, none, []⟩ [incrementOne] =
      some ⟨false, 0, some 1, incrementsText.take 44⟩ := by
    decide +kernel
  exact aof_swallows ready_counter rfl writable_increments ⟨rfl, rfl, rfl⟩ wrote
    stopsInside_incrementBoth (0, 0)

end CodeNotes.RedisServer
