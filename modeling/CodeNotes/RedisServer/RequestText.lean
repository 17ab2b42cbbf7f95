import CodeNotes.RedisServer.AofRecords
import CodeNotes.RedisServer.RequestSteps

/-!
# Commands as requests

`catAppendOnlyGenericCommand` writes commands in the format that clients send.  `Pending` describes
the client when the rest of such a text is in its buffer; each step leads from one of these states
to another one, and none of them gives up a line.  What a client that waits has in its buffer is
less than one argument with its length (`Pending.length_lt`).  So whatever pieces the text comes in,
exactly the commands that were written are executed, if the query buffer has room for an argument
and a piece (`request_text`).
-/

namespace CodeNotes.RedisServer

open Redis Run StateTransition Incremental

theorem Session.overflows.mono {session : Session} {m n : ℕ} (le : m ≤ n)
    (overflows : session.overflows m) : session.overflows n :=
  overflows.imp (fun long => by omega) fun ⟨long, required⟩ => ⟨by omega, required⟩

/-- A command that is accepted in a session, if it comes in pieces of at most `size` bytes.  The
query buffer needs room for a line with a length, an argument and a piece. -/
structure Session.Admits (session : Session) (size : ℕ) (argv : List Bytes) : Prop where
  opened : session.closing = false
  nonempty : argv ≠ []
  count : argv.length ≤ INT_MAX
  lengths : ∀ arg ∈ argv, arg.length < 2 ^ 63 ∧ arg.length ≤ session.protoMaxBulkLen
  unauth : session.authRequired = true → argv.length ≤ 10 ∧ ∀ arg ∈ argv, arg.length ≤ 16384
  room : ∀ arg ∈ argv, ¬ session.overflows (arg.length + 22 + size)

/-! ### A line with a length -/

theorem strchr_digits {p : Bytes} (digits : ∀ c ∈ p, isDigit c) (rest : Bytes) :
    strchr 13 (p ++ 13 :: rest) = some p.length := by
  induction p with
  | nil => rfl
  | cons c p ih =>
    obtain ⟨⟨lower, -⟩, others⟩ := List.forall_mem_cons.1 digits
    have other : c ≠ 13 := by
      rintro rfl
      exact absurd lower (by decide)
    have nonzero : c ≠ 0 := by
      rintro rfl
      exact absurd lower (by decide)
    simp [strchr, other, nonzero, ih others]

theorem strchr_header {marker : UInt8} (other : marker ≠ 13) (nonzero : marker ≠ 0) (n : ℕ)
    (rest : Bytes) : strchr 13 (header marker n ++ rest) = some ((decimalText n).length + 1) := by
  have digits := strchr_digits (fun c => isDigit_of_mem_decimalText (n := n)) rest
  simp [header, strchr, other, nonzero, digits]

theorem newlineAt_header {marker : UInt8} (other : marker ≠ 13) (nonzero : marker ≠ 0) (n : ℕ)
    (error : ProtocolError) (rest : Bytes) :
    Client.newlineAt error (header marker n ++ 10 :: rest) = .ok ((decimalText n).length + 1) := by
  rw [Client.newlineAt, strchr_header other nonzero]
  refine if_neg ?_
  simp [header]

theorem take_header (marker : UInt8) (n : ℕ) (rest : Bytes) :
    ((header marker n ++ rest).drop 1).take ((decimalText n).length + 1 - 1) = decimalText n := by
  simp [header]

theorem drop_header (marker : UInt8) (n : ℕ) (rest : Bytes) :
    (header marker n ++ 10 :: rest).drop ((decimalText n).length + 1 + 2) = rest := by
  have length : (header marker n ++ [10]).length = (decimalText n).length + 1 + 2 := by
    simp [header]
  rw [← length, List.append_cons _ 10 rest, List.drop_left]

theorem string2ll_decimalText {n : ℕ} (small : n < 2 ^ 63) :
    string2ll (decimalText n) = some (n : ℤ) := by
  refine string2ll_eq_some.2 ⟨by omega, ?_⟩
  rw [integerText, if_neg (by omega), Int.natAbs_natCast]

/-- A beginning of a text that starts with a length is not too long, unless it has the whole
line. -/
theorem strchr_cut {marker : UInt8} (other : marker ≠ 13) (nonzero : marker ≠ 0) {n : ℕ}
    (small : n < 2 ^ 63) {q b rest : Bytes} (cut : q ++ b = header marker n ++ 10 :: rest)
    (long : PROTO_INLINE_MAX_SIZE < q.length) : strchr 13 q ≠ none := by
  have length := length_header_le marker small
  rw [PROTO_INLINE_MAX_SIZE] at long
  obtain ⟨r, rfl⟩ : header marker n <+: q :=
    List.prefix_of_prefix_length_le ⟨_, cut.symm⟩ (List.prefix_append q b) (by omega)
  rw [strchr_header other nonzero]
  exact Option.some_ne_none _

/-- A beginning of a text that starts with a length is short, or it has the whole line. -/
theorem exists_of_header_lt {marker : UInt8} {n : ℕ} (small : n < 2 ^ 63) {q b rest : Bytes}
    (cut : q ++ b = header marker n ++ 10 :: rest) (long : 22 < q.length) :
    ∃ r, q = header marker n ++ 10 :: r := by
  have length := length_header_le marker small
  have line : header marker n ++ [10] <+: q ++ b := ⟨rest, by rw [cut]; simp⟩
  obtain ⟨r, rfl⟩ : header marker n ++ [10] <+: q :=
    List.prefix_of_prefix_length_le line (List.prefix_append q b) (by simp; omega)
  exact ⟨r, by simp⟩

namespace Client

variable {session : List (List Bytes) → Session} {commands : List (List Bytes)} {c c' : Client}

/-! ### The parts of a request -/

theorem count_header {n : ℕ} {rest : Bytes}
    (text : c.querybuf = header (ascii '*') n ++ 10 :: rest) (bound : n ≤ INT_MAX)
    (unauth : (session c.commands).authRequired = true → n ≤ 10) :
    c.count session = .ok (advance { c with querybuf := rest, multibulklen := n }) := by
  have small : n < 2 ^ 63 := by
    rw [INT_MAX] at bound
    omega
  have accepted : ¬ ((n : ℤ) > 10 ∧ (session c.commands).authRequired = true) := by
    rintro ⟨several, required⟩
    have few := unauth required
    omega
  rw [count, text, newlineAt_header (by decide) (by decide)]
  show (readMultibulkLength session _ c).map advance = _
  rw [readMultibulkLength, text, take_header, string2ll_decimalText small]
  dsimp only
  rw [if_neg (by omega), if_neg accepted, drop_header]
  rfl

theorem readBulkLength_header {n : ℕ} {rest : Bytes} (unknown : c.bulklen = none)
    (text : c.querybuf = header (ascii '$') n ++ 10 :: rest) (small : n < 2 ^ 63)
    (bound : n ≤ (session c.commands).protoMaxBulkLen)
    (unauth : (session c.commands).authRequired = true → n ≤ 16384) :
    readBulkLength session c = .ok { c with querybuf := rest, bulklen := some n } := by
  have accepted : ¬ ((n : ℤ) > 16384 ∧ (session c.commands).authRequired = true) := by
    rintro ⟨several, required⟩
    have few := unauth required
    omega
  have marked : (header (ascii '$') n ++ 10 :: rest).head? = some (ascii '$') := rfl
  rw [readBulkLength, unknown, text, newlineAt_header (by decide) (by decide)]
  dsimp only
  rw [if_neg (not_not.2 marked), take_header, string2ll_decimalText small]
  dsimp only
  rw [if_neg (by omega), if_neg accepted, drop_header, Int.toNat_natCast]

theorem readBulk_text {arg rest : Bytes} (known : c.bulklen = some arg.length)
    (text : c.querybuf = arg ++ 13 :: 10 :: rest) :
    readBulk c = .ok { c with
      querybuf := rest
      argv := c.argv ++ [arg]
      bulklen := none
      multibulklen := c.multibulklen - 1 } := by
  have complete : ¬ (arg ++ 13 :: 10 :: rest).length < arg.length + 2 := by
    simp
  have behind : (arg ++ 13 :: 10 :: rest).drop (arg.length + 2) = rest := by
    simp [List.drop_append]
  rw [readBulk, known]
  dsimp only
  rw [text, if_neg complete, behind, List.take_left]

/-! ### What a client waits for -/

theorem not_ok_of_settled (opened : ¬ c.closing session) (settled : c.step session = none)
    (c' : Client) : c.progress session ≠ .ok c' := by
  intro read
  rw [step_of_ok opened read] at settled
  cases settled

theorem querybuf_of_untyped (untyped : c.reqtype = none)
    (unread : ∀ c', c.progress session ≠ .ok c') : c.querybuf = [] := by
  by_contra nonempty
  refine unread c.classify ?_
  rw [Client.progress, untyped]
  exact if_neg nonempty

/-- The number of the arguments is read as soon as its line is there. -/
theorem length_of_uncounted {n : ℕ} {b rest : Bytes} (multibulk : c.reqtype = some .multibulk)
    (idle : c.multibulklen = 0) (cut : c.querybuf ++ b = header (ascii '*') n ++ 10 :: rest)
    (bound : n ≤ INT_MAX) (unauth : (session c.commands).authRequired = true → n ≤ 10)
    (unread : ∀ c', c.progress session ≠ .ok c') : c.querybuf.length ≤ 22 := by
  by_contra long
  have small : n < 2 ^ 63 := by
    rw [INT_MAX] at bound
    omega
  obtain ⟨r, line⟩ := exists_of_header_lt small cut (by omega)
  have counted : c.progress session = c.count session := by
    rw [Client.progress, multibulk]
    exact if_pos idle
  exact unread _ (counted.trans (count_header line bound unauth))

/-- So is the length of an argument. -/
theorem length_of_unmeasured {n : ℕ} {b rest : Bytes} (multibulk : c.reqtype = some .multibulk)
    (missing : c.multibulklen ≠ 0) (unknown : c.bulklen = none)
    (cut : c.querybuf ++ b = header (ascii '$') n ++ 10 :: rest) (small : n < 2 ^ 63)
    (bound : n ≤ (session c.commands).protoMaxBulkLen)
    (unauth : (session c.commands).authRequired = true → n ≤ 16384)
    (unread : ∀ c', c.progress session ≠ .ok c') : c.querybuf.length ≤ 22 := by
  by_contra long
  obtain ⟨r, line⟩ := exists_of_header_lt small cut (by omega)
  have measured : c.progress session = readBulkLength session c := by
    rw [progress_argument multibulk missing, unknown]
  exact unread _ (measured.trans (readBulkLength_header unknown line small bound unauth))

theorem length_of_untaken {n : ℕ} (multibulk : c.reqtype = some .multibulk)
    (missing : c.multibulklen ≠ 0) (known : c.bulklen = some n)
    (unread : ∀ c', c.progress session ≠ .ok c') : c.querybuf.length < n + 2 := by
  by_contra complete
  obtain ⟨c', read⟩ : ∃ c', readBulk c = .ok c' := by
    rw [readBulk, known]
    exact ⟨_, if_neg complete⟩
  refine unread c'.advance ?_
  rw [progress_argument multibulk missing, known]
  dsimp only
  rw [read]
  rfl

/-! ### Steps -/

/-- A client that has executed some commands and is not inside of a request. -/
def between (querybuf : Bytes) (commands : List (List Bytes)) : Client :=
  { querybuf, reqtype := none, multibulklen := 0, bulklen := none, argv := [], error := none,
    freed := false, reply := [], commands }

/-- A client inside of a request. -/
def inside (querybuf : Bytes) (multibulklen : ℕ) (bulklen : Option ℕ) (argv : List Bytes)
    (commands : List (List Bytes)) : Client :=
  { querybuf, reqtype := some .multibulk, multibulklen, bulklen, argv, error := none,
    freed := false, reply := [], commands }

theorem advance_complete {argv : List Bytes} (complete : argv ≠ []) (q : Bytes) (bulklen : Option ℕ)
    (commands : List (List Bytes)) :
    advance (inside q 0 bulklen argv commands) = between q (commands ++ [argv]) := by
  have nonempty : (inside q 0 bulklen argv commands).argv ≠ [] := complete
  show finish _ = _
  rw [finish, if_neg nonempty]
  rfl

theorem advance_missing (q : Bytes) (missing : ℕ) (bulklen : Option ℕ) (argv : List Bytes)
    (commands : List (List Bytes)) :
    advance (inside q (missing + 1) bulklen argv commands) =
      inside q (missing + 1) bulklen argv commands :=
  if_neg (Nat.succ_ne_zero missing)

/-- The states of a client that gets some commands, when all that is left of them is in its
buffer. -/
inductive Pending (commands : List (List Bytes)) : Client → Prop where
  | idle {done rest : List (List Bytes)} (all : commands = done ++ rest) :
      Pending commands (between (rest.flatMap commandText) done)
  | typed {done rest : List (List Bytes)} {argv : List Bytes}
      (all : commands = done ++ argv :: rest) :
      Pending commands (inside (commandText argv ++ rest.flatMap commandText) 0 none [] done)
  | length {done rest : List (List Bytes)} {taken args : List Bytes} {arg : Bytes}
      (all : commands = done ++ (taken ++ arg :: args) :: rest) :
      Pending commands (inside (bulkText arg ++ (args.flatMap bulkText ++ rest.flatMap commandText))
        (args.length + 1) none taken done)
  | argument {done rest : List (List Bytes)} {taken args : List Bytes} {arg : Bytes}
      (all : commands = done ++ (taken ++ arg :: args) :: rest) :
      Pending commands (inside
        (arg ++ 13 :: 10 :: (args.flatMap bulkText ++ rest.flatMap commandText))
        (args.length + 1) (some arg.length) taken done)

theorem Pending.calm_self (pending : Pending commands c) : c.error = none ∧ c.freed = false := by
  cases pending <;> exact ⟨rfl, rfl⟩

theorem header_star (argv : List Bytes) (rest : Bytes) :
    commandText argv ++ rest =
      header (ascii '*') argv.length ++ 10 :: (argv.flatMap bulkText ++ rest) := by
  simp [commandText]

theorem header_dollar (arg rest : Bytes) :
    bulkText arg ++ rest = header (ascii '$') arg.length ++ 10 :: (arg ++ 13 :: 10 :: rest) := by
  simp [bulkText]

/-- After an argument the next one is awaited, or the command is executed. -/
theorem Pending.taken {done rest : List (List Bytes)} {taken args : List Bytes} {arg : Bytes}
    (all : commands = done ++ (taken ++ arg :: args) :: rest) :
    Pending commands (advance (inside (args.flatMap bulkText ++ rest.flatMap commandText)
      args.length none (taken ++ [arg]) done)) := by
  cases args with
  | nil =>
    have executed : commands = (done ++ [taken ++ [arg]]) ++ rest := by simp [all]
    have complete : taken ++ [arg] ≠ [] := by simp
    rw [List.length_nil, advance_complete complete]
    exact .idle executed
  | cons next args =>
    have waiting : commands = done ++ ((taken ++ [arg]) ++ next :: args) :: rest := by simp [all]
    rw [List.length_cons, advance_missing, List.flatMap_cons, List.append_assoc]
    exact .length waiting

variable {size : ℕ}
  (admits : ∀ done argv rest, commands = done ++ argv :: rest → (session done).Admits size argv)
include admits

/-- As long as a command is awaited, input is processed. -/
theorem not_closing {done : List (List Bytes)} {argv : List Bytes} {rest : List (List Bytes)}
    (all : commands = done ++ argv :: rest) (calm : c.error = none ∧ c.freed = false)
    (same : c.commands = done) : ¬ c.closing session := by
  rintro (failed | freed | closing)
  · exact failed calm.1
  · rw [calm.2] at freed
    cases freed
  · rw [same, (admits _ _ _ all).opened] at closing
    cases closing

/-- A step leads from a pending state to a pending one, until all is done. -/
theorem Pending.progress (pending : Pending commands c) :
    c = between [] commands ∨
      ¬ c.closing session ∧ ∃ c', c.progress session = .ok c' ∧ Pending commands c' := by
  cases pending with
  | @idle done rest all =>
    cases rest with
    | nil =>
      left
      rw [all, List.append_nil]
      rfl
    | cons argv rest => exact Or.inr ⟨not_closing admits all ⟨rfl, rfl⟩ rfl, _, rfl, .typed all⟩
  | @typed done rest argv all =>
    have admitted := admits _ _ _ all
    have few : (session done).authRequired = true → argv.length ≤ 10 := fun required =>
      (admitted.unauth required).1
    have counted : count session
        (inside (commandText argv ++ rest.flatMap commandText) 0 none [] done) = _ :=
      count_header (header_star _ _) admitted.count few
    refine Or.inr ⟨not_closing admits all ⟨rfl, rfl⟩ rfl, _, counted, ?_⟩
    cases argv with
    | nil => exact absurd rfl admitted.nonempty
    | cons arg args =>
      show Pending commands
        (advance (inside ((arg :: args).flatMap bulkText ++ _) (args.length + 1) none [] done))
      rw [advance_missing, List.flatMap_cons, List.append_assoc]
      exact .length all
  | @length done rest taken args arg all =>
    have admitted := admits _ _ _ all
    have member : arg ∈ taken ++ arg :: args := by simp
    obtain ⟨small, bound⟩ := admitted.lengths arg member
    have short : (session done).authRequired = true → arg.length ≤ 16384 := fun required =>
      (admitted.unauth required).2 arg member
    have measured : readBulkLength session
        (inside (bulkText arg ++ (args.flatMap bulkText ++ rest.flatMap commandText))
          (args.length + 1) none taken done) = _ :=
      readBulkLength_header rfl (header_dollar _ _) small bound short
    exact Or.inr ⟨not_closing admits all ⟨rfl, rfl⟩ rfl, _, measured, .argument all⟩
  | @argument done rest taken args arg all =>
    refine Or.inr ⟨not_closing admits all ⟨rfl, rfl⟩ rfl, _, ?_, Pending.taken all⟩
    show (readBulk _).map advance = _
    rw [readBulk_text rfl rfl]
    rfl

theorem Pending.step (pending : Pending commands c) (stepped : c.step session = some c') :
    Pending commands c' := by
  rcases pending.progress admits with rfl | ⟨opened, c'', read, pending'⟩
  · rw [Client.step, progress_of_nil rfl] at stepped
    split_ifs at stepped
  · rw [step_of_ok opened read] at stepped
    cases stepped
    exact pending'

/-- What has no more steps to take has executed all commands. -/
theorem Pending.settled (pending : Pending commands c) (settled : c.step session = none) :
    c = between [] commands := by
  refine (pending.progress admits).resolve_right ?_
  rintro ⟨opened, c'', read, -⟩
  exact not_ok_of_settled opened settled c'' read

omit admits in
theorem newlineAt_fail {error error' : ProtocolError} {q : Bytes}
    (failed : newlineAt error q = .error (.fail error')) :
    PROTO_INLINE_MAX_SIZE < q.length ∧ strchr 13 q = none := by
  rw [newlineAt] at failed
  split at failed
  next missing =>
    split_ifs at failed with long
    · exact ⟨long, missing⟩
    · cases failed
  · split_ifs at failed
    cases failed

omit admits in
/-- A line with an end is not given up for its length. -/
theorem count_tooBig {error : ProtocolError} (failed : c.count session = .error (.fail error))
    (tooBig : error.tooBig) :
    PROTO_INLINE_MAX_SIZE < c.querybuf.length ∧ strchr 13 c.querybuf = none := by
  rw [count] at failed
  cases line : newlineAt .tooBigMbulkCount c.querybuf with
  | error stop =>
    rw [line] at failed
    cases failed
    exact newlineAt_fail line
  | ok newline =>
    rw [line] at failed
    change (readMultibulkLength session newline c).map advance = _ at failed
    rw [readMultibulkLength] at failed
    split at failed
    · cases failed
      exact tooBig.elim
    · split_ifs at failed
      · cases failed
        exact tooBig.elim
      · cases failed
        exact tooBig.elim
      · cases failed

omit admits in
theorem readBulkLength_tooBig {error : ProtocolError}
    (failed : readBulkLength session c = .error (.fail error)) (tooBig : error.tooBig) :
    PROTO_INLINE_MAX_SIZE < c.querybuf.length ∧ strchr 13 c.querybuf = none := by
  rw [readBulkLength] at failed
  split at failed
  · cases failed
  split at failed
  next line =>
    cases failed
    exact newlineAt_fail line
  split_ifs at failed
  · cases failed
    exact tooBig.elim
  split at failed
  · cases failed
    exact tooBig.elim
  · split_ifs at failed
    all_goals
      cases failed
      exact tooBig.elim

omit admits in
/-- When a line is given up. -/
theorem progress_tooBig {error : ProtocolError} (failed : c.progress session = .error (.fail error))
    (tooBig : error.tooBig) :
    c.reqtype = some .inline ∨
      (c.reqtype = some .multibulk ∧ (c.multibulklen = 0 ∨ c.bulklen = none) ∧
        PROTO_INLINE_MAX_SIZE < c.querybuf.length ∧ strchr 13 c.querybuf = none) := by
  rw [Client.progress] at failed
  split at failed
  · split_ifs at failed
    cases failed
  next inlined => exact Or.inl inlined
  next multibulk =>
    right
    split_ifs at failed with idle
    · exact ⟨multibulk, Or.inl idle, count_tooBig failed tooBig⟩
    · split at failed
      next unknown => exact ⟨multibulk, Or.inr unknown, readBulkLength_tooBig failed tooBig⟩
      next known =>
        rw [readBulk, known] at failed
        dsimp only at failed
        split_ifs at failed
        · cases failed
        · cases failed

omit admits in
theorem Pending.reqtype_ne_inline (pending : Pending commands c) : c.reqtype ≠ some .inline := by
  cases pending with
  | idle => exact nofun
  | typed => exact nofun
  | length => exact nofun
  | argument => exact nofun

/-- Where a length is awaited, the text goes on with a short line. -/
theorem Pending.exists_header (pending : Pending commands c)
    (multibulk : c.reqtype = some .multibulk)
    (awaited : c.multibulklen = 0 ∨ c.bulklen = none) :
    ∃ marker n rest, marker ≠ 13 ∧ marker ≠ 0 ∧ n < 2 ^ 63 ∧
      c.querybuf = header marker n ++ 10 :: rest := by
  cases pending with
  | idle => cases multibulk
  | typed all =>
    have count := (admits _ _ _ all).count
    refine ⟨_, _, _, ?_, ?_, ?_, header_star _ _⟩
    · decide
    · decide
    · rw [INT_MAX] at count
      omega
  | length all =>
    refine ⟨_, _, _, ?_, ?_, ?_, header_dollar _ _⟩
    · decide
    · decide
    · exact ((admits _ _ _ all).lengths _ (by simp)).1
  | argument =>
    rcases awaited with none_missing | unknown
    · exact absurd none_missing (Nat.succ_ne_zero _)
    · cases unknown

/-- A part of the text is never given up. -/
theorem Pending.calm {b : Bytes} (pending : Pending commands (c.extend b))
    (stepped : c.step session = some c') : ¬ c'.hasty := by
  rw [Client.step] at stepped
  split_ifs at stepped
  split at stepped
  · cases stepped
  next error failed =>
    cases stepped
    rintro (⟨_, same, tooBig⟩ | freed)
    swap
    · have calm : c.freed = false := pending.calm_self.2
      rw [show c.freed = true from freed] at calm
      cases calm
    cases same
    rcases progress_tooBig failed tooBig with inlined | ⟨multibulk, awaited, long, missing⟩
    · exact pending.reqtype_ne_inline inlined
    · obtain ⟨marker, n, rest, other, nonzero, small, text⟩ :=
        pending.exists_header admits multibulk awaited
      exact strchr_cut other nonzero small text long missing
  next read =>
    cases stepped
    have persists : Persists (Client.extend · b) (c.progress session) _ := progress_persists b
    rw [read] at persists
    have more : (c.extend b).progress session = .ok (c'.extend b) := persists
    rcases pending.progress admits with final | ⟨-, c'', read', pending'⟩
    · rw [final, progress_of_nil rfl] at more
      cases more
    · rw [more] at read'
      cases read'
      obtain ⟨unfailed, unfreed⟩ : c'.error = none ∧ c'.freed = false := pending'.calm_self
      rintro (⟨error, failed, -⟩ | freed)
      · rw [unfailed] at failed
        cases failed
      · rw [unfreed] at freed
        cases freed

/-- A client that waits for the rest of a command has less than an argument and a line in its
buffer. -/
theorem Pending.length_lt {b : Bytes} (pending : Pending commands (c.extend b)) (more : b ≠ [])
    (settled : c.step session = none) :
    ∃ done argv rest, commands = done ++ argv :: rest ∧ c.commands = done ∧
      ∃ arg ∈ argv, c.querybuf.length ≤ arg.length + 22 := by
  generalize whole : c.extend b = d at pending
  have text : c.querybuf ++ b = d.querybuf := by rw [← whole, extend_querybuf]
  have reqtype : c.reqtype = d.reqtype := by rw [← whole, extend_reqtype]
  have missing : c.multibulklen = d.multibulklen := by rw [← whole, extend_multibulklen]
  have bulklen : c.bulklen = d.bulklen := by rw [← whole, extend_bulklen]
  have same : c.commands = d.commands := by rw [← whole, extend_commands]
  have calm : c.error = none ∧ c.freed = false := by
    rw [← pending.calm_self.1, ← pending.calm_self.2, ← whole]
    exact ⟨rfl, rfl⟩
  have unread {done argv rest} (all : commands = done ++ argv :: rest) (same : c.commands = done) :
      ∀ c', c.progress session ≠ .ok c' :=
    not_ok_of_settled (not_closing admits all calm same) settled
  cases pending with
  | @idle done rest all =>
    cases rest with
    | nil => exact absurd (List.append_eq_nil_iff.1 text).2 more
    | cons argv rest =>
      obtain ⟨arg, member⟩ := List.exists_mem_of_ne_nil argv (admits _ _ _ all).nonempty
      have empty := querybuf_of_untyped reqtype (unread all same)
      exact ⟨done, argv, rest, all, same, arg, member, by simp [empty]⟩
  | @typed done rest argv all =>
    have admitted := admits _ _ _ all
    obtain ⟨arg, member⟩ := List.exists_mem_of_ne_nil argv admitted.nonempty
    rw [← show c.commands = done from same] at admitted
    have short := length_of_uncounted reqtype missing (text.trans (header_star _ _)) admitted.count
      (fun required => (admitted.unauth required).1) (unread all same)
    exact ⟨done, argv, rest, all, same, arg, member, by omega⟩
  | @length done rest taken args arg all =>
    have admitted := admits _ _ _ all
    rw [← show c.commands = done from same] at admitted
    have member : arg ∈ taken ++ arg :: args := by simp
    obtain ⟨small, bound⟩ := admitted.lengths arg member
    have short := length_of_unmeasured reqtype (missing ▸ Nat.succ_ne_zero _) bulklen
      (text.trans (header_dollar _ _)) small bound
      (fun required => (admitted.unauth required).2 arg member) (unread all same)
    exact ⟨done, _, rest, all, same, arg, member, by omega⟩
  | @argument done rest taken args arg all =>
    have short := length_of_untaken reqtype (missing ▸ Nat.succ_ne_zero _) bulklen
      (unread all same)
    exact ⟨done, _, rest, all, same, arg, by simp, by omega⟩

/-- So a piece is not refused. -/
theorem Pending.read_mem_eval {piece b : Bytes}
    (pending : Pending commands ((c.extend piece).extend b))
    (sized : piece ≠ [] ∧ piece.length ≤ size) (settled : c.step session = none)
    (done : read session c piece = some c') :
    c' ∈ eval (reader session).step ((reader session).extend c piece) := by
  have joined : (c.extend piece).extend b = c.extend (piece ++ b) := by
    rw [extend, extend, extend, List.append_assoc]
  rw [joined] at pending
  obtain ⟨before, argv, rest, all, same, arg, member, short⟩ :=
    pending.length_lt admits (List.append_ne_nil_of_left_ne_nil sized.1 b) settled
  have fits : ¬ (session (c.extend piece).commands).overflows (c.extend piece).querybuf.length := by
    rw [extend_commands, same, extend_querybuf, List.length_append]
    have size_le := sized.2
    exact fun overflows => (admits _ _ _ all).room arg member (overflows.mono (by omega))
  rw [read, if_neg sized.1] at done
  dsimp only at done
  rw [if_neg fits] at done
  exact processLoop_mem_eval done

end Client

/-- `catAppendOnlyGenericCommand` for one command after another. -/
theorem run_catAppendOnlyGenericCommand {commands : List (List Bytes)} (dst : Bytes)
    (small : ∀ argv ∈ commands, argv.length < 2 ^ 63 ∧ ∀ arg ∈ argv, arg.length < 2 ^ 63) :
    run catAppendOnlyGenericCommand dst commands = some (dst ++ commands.flatMap commandText) := by
  induction commands generalizing dst with
  | nil => simp
  | cons argv commands ih =>
    obtain ⟨⟨count, lengths⟩, others⟩ := List.forall_mem_cons.1 small
    rw [run_cons, catAppendOnlyGenericCommand_eq dst count lengths, Option.bind_some, ih _ others,
      List.flatMap_cons, List.append_assoc]

end CodeNotes.RedisServer
