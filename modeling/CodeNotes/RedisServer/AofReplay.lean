import Mathlib.Data.List.DropRight
import CodeNotes.RedisServer.AofRecords

/-!
# Records are replayed

While the loader reads records, the data are those of a client that runs their commands one after
another, and the loader knows up to where the file is valid (`Loaded`).  A file that ends with a
part of a record is loaded up to there, and what is left of it is again a file of records, but for
the beginning of a line that is skipped (`load_cut`).  If the part is one of a command, the records
up to the last command are left (`Recovered.torn`).
-/

namespace CodeNotes.RedisServer

open Redis Run

variable {σ : Type*} {server : AofServer σ} {data : σ}

/-! ### Records are replayed -/

variable (server) in
/-- What a record does with the data.  There is no `MULTI` inside of a transaction. -/
def replay (client : AofClient σ) : Record → Option (AofClient σ)
  | .note _ => some client
  | .command argv =>
    (server.lookupCommand argv).bind fun kind =>
      if kind = .multi ∧ client.queue ≠ none then none else runCommand server client kind argv

/-- Lines that are skipped. -/
def Notes (records : List Record) : Prop := ∀ record ∈ records, ∃ line, record = .note line

theorem Notes.replay {notes : List Record} (skipped : Notes notes) (client : AofClient σ) :
    run (replay server) client notes = some client := by
  induction notes with
  | nil => rfl
  | cons note notes ih =>
    obtain ⟨⟨line, rfl⟩, others⟩ := List.forall_mem_cons.1 skipped
    exact ih others

def Record.isNote : Record → Bool
  | .note _ => true
  | .command _ => false

/-- The lines at the end that are skipped make no difference. -/
theorem replay_rdropWhile (client : AofClient σ) (records : List Record) :
    run (replay server) client (records.rdropWhile Record.isNote) =
      run (replay server) client records := by
  induction records using List.reverseRecOn with
  | nil => rfl
  | append_singleton records record ih =>
    cases record with
    | note line =>
      rw [List.rdropWhile_concat_pos _ _ _ rfl, ih, run_append]
      cases run (replay server) client records <;> rfl
    | command argv => rw [List.rdropWhile_concat_neg _ _ _ Bool.false_ne_true]

theorem selectCommand_queue {client client' : AofClient σ} {argv : List Bytes}
    (ran : selectCommand server client argv = some client') : client'.queue = client.queue := by
  unfold selectCommand at ran
  split at ran
  · split at ran
    · cases ran
      rfl
    · split_ifs at ran <;> cases ran <;> rfl
  · cases ran

/-- What a command does with the queue. -/
theorem runCommand_cases {client client' : AofClient σ} {kind : CommandKind} {argv : List Bytes}
    (ran : runCommand server client kind argv = some client') :
    client'.queue = none ∨
      (client.queue = none ∧ kind = .multi ∧ client' = { client with queue := some [] }) ∨
      ∃ queue, client.queue = some queue ∧
        client' = { client with queue := some (queue ++ [(kind, argv)]) } := by
  unfold runCommand at ran
  split at ran
  next =>
    obtain ⟨_, -, rfl⟩ := Option.map_eq_some_iff.1 ran
    exact Or.inl rfl
  next queue busy _ =>
    cases ran
    exact Or.inr (Or.inr ⟨queue, busy, rfl⟩)
  next idle =>
    cases ran
    exact Or.inr (Or.inl ⟨idle, rfl, rfl⟩)
  next idle =>
    cases ran
    exact Or.inl idle
  next idle => exact Or.inl ((selectCommand_queue ran).trans idle)
  next idle =>
    cases ran
    exact Or.inl idle

theorem runCommand_idle {client : AofClient σ} {kind : CommandKind} (idle : client.queue = none)
    (plain : kind = .select ∨ kind = .other) (argv : List Bytes) :
    runCommand server client kind argv = callQueued server client (kind, argv) := by
  obtain ⟨data, db, queue⟩ := client
  cases idle
  rcases plain with rfl | rfl <;> rfl

theorem runCommand_queued {client : AofClient σ} {kind : CommandKind}
    {queue : List (CommandKind × List Bytes)} (busy : client.queue = some queue)
    (plain : kind = .select ∨ kind = .other) (argv : List Bytes) :
    runCommand server client kind argv =
      some { client with queue := some (queue ++ [(kind, argv)]) } := by
  obtain ⟨data, db, queue⟩ := client
  cases busy
  rcases plain with rfl | rfl <;> rfl

/-- The loader has read some records of a file, and knows up to where it is valid. -/
structure Loaded (server : AofServer σ) (data : σ) (whole : Bytes) (records : List Record)
    (loader : AofLoader σ) : Prop where
  text : whole = records.flatMap Record.text ++ loader.file
  client : run (replay server) (.start data) records = some loader.client
  valid : loader.validUpTo = ((records.rdropWhile Record.isNote).flatMap Record.text).length
  multi : loader.client.queue ≠ none → ∃ valid rest client, records = valid ++ rest ∧
    run (replay server) (.start data) valid = some client ∧ client.queue = none ∧
    client.data = loader.client.data ∧
    loader.validBeforeMulti = (valid.flatMap Record.text).length

theorem loaded_start (data : σ) (whole : Bytes) :
    Loaded server data whole [] ⟨.start data, whole, 0, 0⟩ where
  text := rfl
  client := rfl
  valid := rfl
  multi opened := absurd rfl opened

theorem Loaded.step {whole rest : Bytes} {records : List Record} {loader : AofLoader σ}
    {record : Record} {client : AofClient σ} (truncating : server.loadTruncated)
    (loaded : Loaded server data whole records loader) (text : loader.file = record.text ++ rest)
    (replayed : replay server loader.client record = some client) :
    ∃ next, loadRecord server whole.length loader record = .ok next ∧ next.client = client ∧
      next.file = rest ∧ Loaded server data whole (records ++ [record]) next := by
  have file : loader.file.drop record.text.length = rest := by rw [text, List.drop_left' rfl]
  have whole_eq : whole = (records ++ [record]).flatMap Record.text ++ rest := by
    rw [List.flatMap_append, List.flatMap_singleton, List.append_assoc, ← text]
    exact loaded.text
  have all : run (replay server) (.start data) (records ++ [record]) = some client := by
    rw [run_append, loaded.client, Option.bind_some, run_cons, replayed]
    rfl
  cases record with
  | note line =>
    cases replayed
    refine ⟨{ loader with file := rest }, by rw [← file]; rfl, rfl, rfl, whole_eq, all, ?_, ?_⟩
    · rw [List.rdropWhile_concat_pos _ _ _ rfl]
      exact loaded.valid
    · intro opened
      obtain ⟨valid, others, before, rfl, ran, idle, same, upTo⟩ := loaded.multi opened
      exact ⟨valid, others ++ [.note line], before, List.append_assoc _ _ _, ran, idle, same, upTo⟩
  | command argv =>
    obtain ⟨kind, found, ran⟩ := Option.bind_eq_some_iff.1 replayed
    by_cases nested : kind = .multi ∧ loader.client.queue ≠ none
    · rw [if_pos nested] at ran
      cases ran
    rw [if_neg nested] at ran
    refine ⟨⟨client, rest, whole.length - rest.length,
      if kind = .multi then loader.validUpTo else loader.validBeforeMulti⟩, ?_, rfl, rfl,
      whole_eq, all, ?_, ?_⟩
    · dsimp only [loadRecord, loadCommand]
      rw [file, found]
      dsimp only
      rw [ran]
      dsimp only
      rw [if_pos truncating]
    · show whole.length - rest.length = _
      rw [List.rdropWhile_concat_neg _ _ _ Bool.false_ne_true, whole_eq, List.length_append,
        Nat.add_sub_cancel]
    · intro opened
      rcases runCommand_cases ran with idle | ⟨idle, rfl, rfl⟩ | ⟨queue, busy, rfl⟩
      · exact absurd idle opened
      · obtain ⟨notes, split⟩ := List.rdropWhile_prefix Record.isNote records
        refine ⟨records.rdropWhile Record.isNote, notes ++ [.command argv], loader.client, ?_,
          (replay_rdropWhile _ _).trans loaded.client, idle, rfl, loaded.valid⟩
        rw [← List.append_assoc, split]
      · have opened : loader.client.queue ≠ none := by
          rw [busy]
          exact Option.some_ne_none _
        have other : kind ≠ .multi := fun same => nested ⟨same, opened⟩
        obtain ⟨valid, others, before, rfl, earlier, idle, same, upTo⟩ := loaded.multi opened
        refine ⟨valid, others ++ [.command argv], before, List.append_assoc _ _ _, earlier, idle,
          same, ?_⟩
        rw [if_neg other]
        exact upTo

theorem Loaded.records {whole rest : Bytes} {before records : List Record} {loader : AofLoader σ}
    {client : AofClient σ} (truncating : server.loadTruncated)
    (loaded : Loaded server data whole before loader)
    (text : loader.file = records.flatMap Record.text ++ rest)
    (replayed : run (replay server) loader.client records = some client) :
    ∃ next, records.foldlM (loadRecord server whole.length) loader = .ok next ∧
      next.client = client ∧ next.file = rest ∧
      Loaded server data whole (before ++ records) next := by
  induction records generalizing loader before with
  | nil =>
    rw [run_nil, Option.some.injEq] at replayed
    refine ⟨loader, rfl, replayed, text, ?_⟩
    rwa [List.append_nil]
  | cons record records ih =>
    rw [List.flatMap_cons, List.append_assoc] at text
    obtain ⟨middle, first, others⟩ := Option.bind_eq_some_iff.1 replayed
    obtain ⟨next, step, rfl, file, loaded⟩ := loaded.step truncating text first
    obtain ⟨last, rest, client, file, loaded⟩ := ih loaded file others
    refine ⟨last, ?_, client, file, ?_⟩
    · rw [List.foldlM_cons, step]
      exact rest
    · rwa [List.append_assoc, List.singleton_append] at loaded

/-! ### The end of the file -/

/-- What is behind the last complete record: nothing, or the beginning of another one. -/
def Torn (server : AofServer σ) (tail : Bytes) : Prop :=
  tail = [] ∨ ∃ record : Record, record.Readable server ∧ tail <+: record.text ∧ tail ≠ record.text

/-- A record begins with `*` or `#`. -/
theorem head?_of_readable {record : Record} {p : Bytes} (readable : record.Readable server)
    (cut : p <+: record.text) (nonempty : p ≠ []) :
    p.head? = some (ascii '*') ∨ p.head? = some (ascii '#') := by
  obtain ⟨q, whole⟩ := cut
  have head : p.head? = record.text.head? := by
    rw [← whole, List.head?_append_of_ne_nil p nonempty]
  cases record with
  | note line =>
    have mark := readable.2.2
    refine Or.inr (head.trans ?_)
    rw [Record.text, List.head?_append, mark, Option.some_or]
  | command argv => exact Or.inl head

/-- A file of records is not a binary dump. -/
theorem take_ne_redis {records : List Record} {tail : Bytes}
    (readable : ∀ record ∈ records, record.Readable server) (torn : Torn server tail) :
    (records.flatMap Record.text ++ tail).take 5 ≠ literal "REDIS" := by
  intro same
  have first : ((records.flatMap Record.text ++ tail).take 5).head? = some (ascii 'R') := by
    rw [same]
    decide +kernel
  rw [List.head?_take, if_neg (by decide)] at first
  have other : (records.flatMap Record.text ++ tail).head? = none ∨
      (records.flatMap Record.text ++ tail).head? = some (ascii '*') ∨
      (records.flatMap Record.text ++ tail).head? = some (ascii '#') := by
    cases records with
    | nil =>
      by_cases empty : tail = []
      · rw [empty]
        exact Or.inl rfl
      rcases torn with empty' | ⟨record, fits, cut, -⟩
      · exact absurd empty' empty
      · exact Or.inr (head?_of_readable fits cut empty)
    | cons record records =>
      rw [List.flatMap_cons, List.append_assoc, List.head?_append_of_ne_nil _ record.text_ne_nil]
      exact Or.inr (head?_of_readable (readable record List.mem_cons_self) (List.prefix_refl _)
        record.text_ne_nil)
  rcases other with empty | star | mark
  · rw [first] at empty
    cases empty
  · rw [first] at star
    exact absurd star (by decide)
  · rw [first] at mark
    exact absurd mark (by decide)

/-- The loop ends at the end of the file. -/
theorem ends_torn {size : ℕ} {loader : AofLoader σ} (torn : Torn server loader.file) :
    (Ends server size loader .eof { loader with file := [] } ∧
      (loader.file = [] ∨ loader.file.head? = some (ascii '#'))) ∨
    (Ends server size loader .short loader ∧ loader.file ≠ [] ∧
      loader.file.head? ≠ some (ascii '#')) := by
  by_cases empty : loader.file = []
  · have same : loader = { loader with file := [] } := by rw [← empty]
    refine Or.inl ⟨?_, Or.inl empty⟩
    rw [← same]
    exact ends_nil empty
  obtain ⟨record, readable, cut, missing⟩ := torn.resolve_left empty
  cases record with
  | note line =>
    obtain ⟨short, clean, mark⟩ := readable
    have inside : loader.file <+: line := (List.prefix_concat_iff.1 cut).resolve_left missing
    have head : loader.file.head? = some (ascii '#') := by
      obtain ⟨q, whole⟩ := inside
      rw [← whole, List.head?_append_of_ne_nil _ empty] at mark
      exact mark
    have goes : loadRound server size loader = .ok { loader with file := [] } :=
      loadRound_skip_cut (inside.length_le.trans_lt short)
        (fun member => clean (inside.subset member))
        head
    exact Or.inl ⟨Ends.head goes (List.length_pos_of_ne_nil empty) (ends_nil rfl), Or.inr head⟩
  | command argv =>
    refine Or.inr ⟨ends_of_error (loadRound_cut readable empty cut missing), empty, ?_⟩
    obtain ⟨q, whole⟩ := cut
    rw [← List.head?_append_of_ne_nil _ empty, whole]
    show some (ascii '*') ≠ some (ascii '#')
    decide

theorem loadSingleAppendOnlyFile_of_ends {records : List Record} {tail : Bytes} {reason : LoadEnd}
    {last : AofLoader σ} (result : AofResult)
    (readable : ∀ record ∈ records, record.Readable server) (torn : Torn server tail)
    (nonempty : records.flatMap Record.text ++ tail ≠ [])
    (ends : Ends server (records.flatMap Record.text ++ tail).length
      ⟨.start data, records.flatMap Record.text ++ tail, 0, 0⟩ reason last)
    (finished : finishLoad server reason last = some result) :
    loadSingleAppendOnlyFile server data (records.flatMap Record.text ++ tail) =
      some (result, last.client) := by
  rw [loadSingleAppendOnlyFile, if_neg nonempty, if_neg (take_ne_redis readable torn), loadCommands,
    ends _ (Nat.lt_succ_self _), Option.bind_some]
  dsimp only
  rw [finished, Option.map_some]

/-- What the loader makes of a file of records: it runs the complete ones, and what it leaves of the
file is records with the same effect, but for the beginning of a line that is skipped. -/
structure Recovered (server : AofServer σ) (data : σ) (records : List Record) (tail : Bytes)
    (client : AofClient σ) (result : AofResult) (valid : List Record) (tail' : Bytes)
    (client' : AofClient σ) : Prop where
  load : loadSingleAppendOnlyFile server data (records.flatMap Record.text ++ tail) =
    some (result, client)
  sound : result ≠ .failed
  ok : tail = [] ∨ tail.head? = some (ascii '#') → client.queue = none → result = .ok
  file : result.file (records.flatMap Record.text ++ tail) = valid.flatMap Record.text ++ tail'
  part : valid <+: records
  replayed : run (replay server) (.start data) valid = some client'
  same : client'.data = client.data
  closed : tail = [] → client'.queue = none
  torn : tail ≠ [] → tail.head? ≠ some (ascii '#') →
    result = .truncated ((records.rdropWhile Record.isNote).flatMap Record.text).length ∧
      valid = records.rdropWhile Record.isNote ∧ client' = client
  tail : tail' = [] ∨ tail' = tail ∧ client'.queue = none ∧ tail.head? = some (ascii '#')

theorem load_cut {records : List Record} {tail : Bytes} {client : AofClient σ}
    (truncating : server.loadTruncated) (readable : ∀ record ∈ records, record.Readable server)
    (torn : Torn server tail) (nonempty : records.flatMap Record.text ++ tail ≠ [])
    (replayed : run (replay server) (.start data) records = some client) :
    ∃ result valid tail' client',
      Recovered server data records tail client result valid tail' client' := by
  have start : Loaded server data (records.flatMap Record.text ++ tail) []
      ⟨.start data, records.flatMap Record.text ++ tail, 0, 0⟩ := loaded_start data _
  obtain ⟨next, steps, rfl, file, loaded⟩ := start.records truncating rfl replayed
  rw [List.nil_append] at loaded
  rw [← file] at torn
  -- a valid part of the records is what is left, if the file is truncated after it
  have left {valid rest : List Record} (split : records = valid ++ rest) :
      (AofResult.truncated (valid.flatMap Record.text).length).file
        (records.flatMap Record.text ++ tail) = valid.flatMap Record.text ++ [] := by
    rw [AofResult.file, split, List.flatMap_append, List.append_assoc, List.take_left' rfl,
      List.append_nil]
  rcases ends_torn torn with ⟨ends, mark⟩ | ⟨ends, some_left, command⟩
  · have load := fun result => loadSingleAppendOnlyFile_of_ends result readable
      (file ▸ torn) nonempty (Ends.records readable rfl steps ends)
    rw [file] at mark
    by_cases idle : next.client.queue = none
    · refine ⟨.ok, records, tail, next.client, load .ok ?_, nofun, fun _ _ => rfl, rfl,
        List.prefix_refl _, replayed, rfl, fun _ => idle,
        fun nonempty command => absurd mark (not_or.2 ⟨nonempty, command⟩),
        mark.imp id fun head => ⟨rfl, idle, head⟩⟩
      dsimp only [finishLoad]
      rw [idle]
    · obtain ⟨valid, rest, client', split, before, closed, same, upTo⟩ := loaded.multi idle
      refine ⟨.truncated next.validBeforeMulti, valid, [], client', load _ ?_, nofun,
        fun _ none => absurd none idle, ?_, ⟨rest, split.symm⟩, before, same, fun _ => closed,
        fun nonempty command => absurd mark (not_or.2 ⟨nonempty, command⟩), Or.inl rfl⟩
      · obtain ⟨queue, busy⟩ := Option.ne_none_iff_exists'.1 idle
        dsimp only [finishLoad]
        rw [busy]
        dsimp only
        rw [if_pos truncating]
      · rw [upTo]
        exact left split
  · have load := fun result => loadSingleAppendOnlyFile_of_ends result readable
      (file ▸ torn) nonempty (Ends.records readable rfl steps ends)
    rw [file] at some_left command
    obtain ⟨rest, split⟩ := List.rdropWhile_prefix Record.isNote records
    refine ⟨.truncated next.validUpTo, records.rdropWhile Record.isNote, [], next.client, load _ ?_,
      nofun, fun other => absurd other (not_or.2 ⟨some_left, command⟩), ?_, ⟨rest, split⟩,
      (replay_rdropWhile _ _).trans replayed, rfl, fun none => absurd none some_left,
      fun _ _ => ⟨by rw [loaded.valid], rfl, rfl⟩, Or.inl rfl⟩
    · dsimp only [finishLoad]
      rw [if_pos truncating]
    · rw [loaded.valid]
      exact left split.symm

end CodeNotes.RedisServer
