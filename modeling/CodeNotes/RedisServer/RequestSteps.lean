import CodeNotes.Lib.Incremental
import CodeNotes.RedisServer.Request

/-!
# Requests step by step

The nested loops of `processInputBuffer` do one thing after another: they find out the type of a
request, read the number of its arguments, a length, an argument, or a line.  `step` is one of
these, and the loops take steps until there is none to take (`processLoop_mem_eval`).

Whatever bytes come in whatever pieces, no assertion fails, the loop ends, no empty command is
executed and nothing but one error line is replied (`request_safe`).  The pieces do not matter:
unless a line is given up that is too long, or the client is freed for a query buffer that is too
long, the same commands are executed and the same error is found (`request_pieces`).
-/

namespace CodeNotes.RedisServer

open Redis Run StateTransition Incremental

/-! ### Lines -/

theorem strchr_lt {x : UInt8} {p : Bytes} {n : ℕ} (found : strchr x p = some n) : n < p.length := by
  induction p generalizing n with
  | nil => cases found
  | cons b p ih =>
    rw [strchr] at found
    split_ifs at found
    · cases found
      exact Nat.succ_pos _
    · obtain ⟨m, inside, rfl⟩ := Option.map_eq_some_iff.1 found
      exact Nat.succ_lt_succ (ih inside)

theorem strchr_append {x : UInt8} {p : Bytes} {n : ℕ} (b : Bytes) (found : strchr x p = some n) :
    strchr x (p ++ b) = some n := by
  induction p generalizing n with
  | nil => cases found
  | cons a p ih =>
    rw [List.cons_append, strchr]
    rw [strchr] at found
    split_ifs at found ⊢
    · exact found
    · obtain ⟨m, inside, rfl⟩ := Option.map_eq_some_iff.1 found
      rw [ih inside, Option.map_some]

namespace Client

variable {session : List (List Bytes) → Session} {c c' : Client}

theorem newlineAt_ok {error : ProtocolError} {q : Bytes} {newline : ℕ}
    (found : newlineAt error q = .ok newline) : newline + 2 ≤ q.length := by
  rw [newlineAt] at found
  cases search : strchr 13 q with
  | none =>
    rw [search] at found
    dsimp only at found
    split_ifs at found
  | some n =>
    rw [search] at found
    dsimp only at found
    split_ifs at found with short
    cases found
    exact not_lt.1 short

/-! ### What the parsers read -/

theorem readMultibulkLength_ok {newline : ℕ}
    (read : readMultibulkLength session newline c = .ok c') :
    ∃ n, c' = { c with querybuf := c.querybuf.drop (newline + 2), multibulklen := n } := by
  rw [readMultibulkLength] at read
  split at read
  · cases read
  · split_ifs at read
    cases read
    exact ⟨_, rfl⟩

theorem readBulkLength_ok (read : readBulkLength session c = .ok c') :
    (c.bulklen ≠ none ∧ c' = c) ∨ (c.bulklen = none ∧
      ∃ newline bulklen, newline + 2 ≤ c.querybuf.length ∧
        c' = { c with querybuf := c.querybuf.drop (newline + 2), bulklen := some bulklen }) := by
  rw [readBulkLength] at read
  split at read
  next bulklen known =>
    cases read
    exact Or.inl ⟨by rw [known]; exact Option.some_ne_none _, rfl⟩
  next unknown =>
    split at read
    · cases read
    next newline line =>
      split_ifs at read
      split at read
      · cases read
      · split_ifs at read
        cases read
        exact Or.inr ⟨unknown, newline, _, newlineAt_ok line, rfl⟩

theorem readBulk_ok (read : readBulk c = .ok c') :
    ∃ bulklen, c.bulklen = some bulklen ∧ bulklen + 2 ≤ c.querybuf.length ∧
      c' = { c with
        querybuf := c.querybuf.drop (bulklen + 2)
        argv := c.argv ++ [c.querybuf.take bulklen]
        bulklen := none
        multibulklen := c.multibulklen - 1 } := by
  rw [readBulk] at read
  split at read
  · cases read
  next bulklen known =>
    split_ifs at read with short
    cases read
    exact ⟨bulklen, known, not_lt.1 short, rfl⟩

theorem readInline_ok (read : c.readInline = .ok c') :
    ∃ newline argv, newline < c.querybuf.length ∧
      c' = { c with querybuf := c.querybuf.drop (newline + 1), argv } := by
  rw [readInline] at read
  split at read
  · split_ifs at read
  next newline found =>
    dsimp only at read
    split at read
    · cases read
    · cases read
      exact ⟨newline, _, strchr_lt found, rfl⟩

/-! ### Steps -/

/-- A request whose arguments are all there is executed. -/
def advance (c : Client) : Client := if c.multibulklen = 0 then c.finish else c

variable (session)

/-- The number of the arguments of the next request. -/
def count (c : Client) : Except Stop Client :=
  (newlineAt .tooBigMbulkCount c.querybuf).bind fun newline =>
    (readMultibulkLength session newline c).map advance

def progress (c : Client) : Except Stop Client :=
  match c.reqtype with
  | none => if c.querybuf = [] then .error .wait else .ok c.classify
  | some .inline => c.readInline.map finish
  | some .multibulk =>
    if c.multibulklen = 0 then c.count session
    else
      match c.bulklen with
      | none => readBulkLength session c
      | some _ => (readBulk c).map advance

def step (c : Client) : Option Client :=
  if c.closing session then none
  else
    match c.progress session with
    | .error .wait => none
    | .error (.fail error) => some (c.fail error)
    | .ok c' => some c'

variable {session}

theorem step_of_closing (closing : c.closing session) : c.step session = none := if_pos closing

theorem step_of_ok (opened : ¬ c.closing session) (read : c.progress session = .ok c') :
    c.step session = some c' := by
  rw [step, if_neg opened, read]

theorem closing_fail (error : ProtocolError) : (c.fail error).closing session :=
  Or.inl (Option.some_ne_none _)

/-- A parser that stops leaves nothing to do. -/
theorem stopped_mem_eval {stop : Stop} (opened : ¬ c.closing session)
    (stops : c.progress session = .error stop) : c.stopped stop ∈ eval (step session) c := by
  rw [mem_eval]
  cases stop with
  | wait => exact ⟨.refl, by rw [stopped, step, if_neg opened, stops]⟩
  | fail error =>
    have stepped : c.step session = some (c.fail error) := by rw [step, if_neg opened, stops]
    exact ⟨.single stepped, step_of_closing (closing_fail error)⟩

/-! ### The loops take steps -/

theorem progress_argument (multibulk : c.reqtype = some .multibulk) (missing : c.multibulklen ≠ 0) :
    c.progress session = match c.bulklen with
      | none => readBulkLength session c
      | some _ => (readBulk c).map advance := by
  rw [progress, multibulk]
  exact if_neg missing

/-- The length of the next argument is read in a step, if it is not known. -/
theorem readBulkLength_reaches (opened : ¬ c.closing session)
    (multibulk : c.reqtype = some .multibulk) (missing : c.multibulklen ≠ 0)
    (read : readBulkLength session c = .ok c') :
    StateTransition.Reaches (step session) c c' ∧ c'.bulklen ≠ none ∧ c'.reqtype = c.reqtype ∧
      c'.multibulklen = c.multibulklen ∧ ¬ c'.closing session := by
  rcases readBulkLength_ok read with ⟨known, rfl⟩ | ⟨unknown, newline, bulklen, -, rfl⟩
  · exact ⟨.refl, known, rfl, rfl, opened⟩
  · have stepped := step_of_ok opened
      ((progress_argument multibulk missing).trans (by rw [unknown]; exact read))
    exact ⟨.single stepped, Option.some_ne_none _, rfl, rfl, opened⟩

theorem bulkLoop_steps {missing : ℕ} {ok : Bool} (opened : ¬ c.closing session)
    (multibulk : c.reqtype = some .multibulk) (number : c.multibulklen = missing)
    (looped : bulkLoop session missing c = (c', ok)) :
    (ok = true → StateTransition.Reaches (step session) c.advance c'.finish) ∧
      (ok = false → c' ∈ eval (step session) c.advance) := by
  induction missing generalizing c with
  | zero =>
    cases looped
    refine ⟨fun _ => ?_, nofun⟩
    rw [advance, if_pos number]
    exact .refl
  | succ missing ih =>
    have some_missing : c.multibulklen ≠ 0 := number ▸ Nat.succ_ne_zero missing
    rw [advance, if_neg some_missing]
    rw [bulkLoop] at looped
    cases length : readBulkLength session c with
    | error stop =>
      rw [length] at looped
      cases looped
      refine ⟨nofun, fun _ => stopped_mem_eval opened ?_⟩
      have unknown : c.bulklen = none := by
        by_contra known
        obtain ⟨bulklen, known⟩ := Option.ne_none_iff_exists'.1 known
        rw [readBulkLength, known] at length
        cases length
      rw [progress_argument multibulk some_missing, unknown]
      exact length
    | ok c₁ =>
      obtain ⟨reaches, known, multibulk₁, number₁, opened₁⟩ :=
        readBulkLength_reaches opened multibulk some_missing length
      rw [multibulk] at multibulk₁
      rw [length] at looped
      dsimp only at looped
      obtain ⟨bulklen, known⟩ := Option.ne_none_iff_exists'.1 known
      have progress_eq : c₁.progress session = _ :=
        progress_argument multibulk₁ (number₁ ▸ some_missing)
      rw [known] at progress_eq
      dsimp only at progress_eq
      cases argument : readBulk c₁ with
      | error stop =>
        rw [argument] at looped progress_eq
        cases looped
        refine ⟨nofun, fun _ => ?_⟩
        rw [reaches_eval reaches]
        exact stopped_mem_eval opened₁ progress_eq
      | ok c₂ =>
        rw [argument] at looped progress_eq
        have reaches₂ := reaches.tail (step_of_ok opened₁ progress_eq)
        obtain ⟨_, -, -, same⟩ := readBulk_ok argument
        have rest := ih (c := c₂) (by rw [same]; exact opened₁) (by rw [same]; exact multibulk₁)
          (by rw [same]; exact congrArg (· - 1) (number₁.trans number)) looped
        refine ⟨fun done => reaches₂.trans (rest.1 done), fun pending => ?_⟩
        rw [reaches_eval reaches₂]
        exact rest.2 pending

theorem processMultibulkBuffer_steps {ok : Bool} (opened : ¬ c.closing session)
    (multibulk : c.reqtype = some .multibulk)
    (processed : c.processMultibulkBuffer session = some (c', ok)) :
    (ok = true → StateTransition.Reaches (step session) c c'.finish) ∧
      (ok = false → c' ∈ eval (step session) c) := by
  rw [processMultibulkBuffer] at processed
  by_cases idle : c.multibulklen = 0
  · have progress_eq : c.progress session = c.count session := by
      rw [progress, multibulk]
      exact if_pos idle
    rw [if_pos idle] at processed
    by_cases dirty : c.argv ≠ []
    · rw [if_pos dirty] at processed
      cases processed
    rw [if_neg dirty] at processed
    rw [count] at progress_eq
    cases line : newlineAt .tooBigMbulkCount c.querybuf with
    | error stop =>
      rw [line] at processed progress_eq
      cases processed
      exact ⟨nofun, fun _ => stopped_mem_eval opened progress_eq⟩
    | ok newline =>
      rw [line] at processed progress_eq
      dsimp only [Except.bind] at processed progress_eq
      split_ifs at processed
      cases number : readMultibulkLength session newline c with
      | error stop =>
        rw [number] at processed progress_eq
        cases processed
        exact ⟨nofun, fun _ => stopped_mem_eval opened progress_eq⟩
      | ok c₁ =>
        rw [number] at processed progress_eq
        have stepped := step_of_ok opened progress_eq
        obtain ⟨n, same⟩ := readMultibulkLength_ok number
        have rest := bulkLoop_steps (c := c₁) (by rw [same]; exact opened)
          (by rw [same]; exact multibulk) rfl (Option.some.inj processed)
        refine ⟨fun done => (rest.1 done).head stepped, fun pending => ?_⟩
        rw [reaches_eval (.single stepped)]
        exact rest.2 pending
  · rw [if_neg idle] at processed
    have rest := bulkLoop_steps opened multibulk rfl (Option.some.inj processed)
    rwa [advance, if_neg idle] at rest

theorem processInlineBuffer_steps {ok : Bool} (opened : ¬ c.closing session)
    (inlined : c.reqtype = some .inline) (processed : c.processInlineBuffer = (c', ok)) :
    (ok = true → StateTransition.Reaches (step session) c c'.finish) ∧
      (ok = false → c' ∈ eval (step session) c) := by
  have progress_eq : c.progress session = c.readInline.map finish := by rw [progress, inlined]
  rw [processInlineBuffer] at processed
  cases line : c.readInline with
  | error stop =>
    rw [line] at processed progress_eq
    cases processed
    exact ⟨nofun, fun _ => stopped_mem_eval opened progress_eq⟩
  | ok c₁ =>
    rw [line] at processed progress_eq
    cases processed
    exact ⟨fun _ => .single (step_of_ok opened progress_eq), nofun⟩

theorem classify_reaches (opened : ¬ c.closing session) (nonempty : c.querybuf ≠ []) :
    StateTransition.Reaches (step session) c c.classify := by
  cases type : c.reqtype with
  | some _ =>
    rw [classify, type]
    exact .refl
  | none =>
    refine .single (step_of_ok opened ?_)
    rw [progress, type]
    exact if_neg nonempty

theorem closing_classify : c.classify.closing session ↔ c.closing session := by
  rw [classify]
  split <;> rfl

theorem processBuffer_steps {ok : Bool} (opened : ¬ c.closing session)
    (processed : c.processBuffer session = some (c', ok)) :
    (ok = true → StateTransition.Reaches (step session) c c'.finish) ∧
      (ok = false → c' ∈ eval (step session) c) := by
  rw [processBuffer] at processed
  split at processed
  next inlined => exact processInlineBuffer_steps opened inlined (Option.some.inj processed)
  next multibulk => exact processMultibulkBuffer_steps opened multibulk processed
  · cases processed

/-- Without a byte in the buffer there is nothing to do. -/
theorem progress_of_nil (empty : c.querybuf = []) : c.progress session = .error .wait := by
  rw [progress]
  split
  · exact if_pos empty
  · rw [readInline, empty]
    rfl
  · split_ifs
    · rw [count, empty]
      rfl
    · split
      next unknown =>
        rw [readBulkLength, unknown, empty]
        rfl
      next known =>
        rw [readBulk, known, empty]
        rfl

/-- **The loop takes steps until there is none to take.** -/
theorem processLoop_mem_eval {fuel : ℕ} (looped : c.processLoop session fuel = some c') :
    c' ∈ eval (step session) c := by
  induction fuel generalizing c with
  | zero => cases looped
  | succ fuel ih =>
    rw [processLoop] at looped
    split_ifs at looped with empty closing
    · cases looped
      by_cases closing : c'.closing session
      · exact mem_eval.2 ⟨.refl, step_of_closing closing⟩
      · exact stopped_mem_eval closing (progress_of_nil empty)
    · cases looped
      exact mem_eval.2 ⟨.refl, step_of_closing closing⟩
    · obtain ⟨⟨c₁, ok⟩, processed, rest⟩ := Option.bind_eq_some_iff.1 looped
      have steps := processBuffer_steps (closing_classify.not.2 closing) processed
      rw [reaches_eval (classify_reaches closing empty)]
      cases ok with
      | true =>
        rw [reaches_eval (steps.1 rfl)]
        exact ih rest
      | false =>
        cases rest
        exact steps.2 rfl

/-! ### More input -/

/-- What has been read with an input is read with more input, too, and so is an error, unless it is
the one of a line without an end. -/
def Persists {α : Type*} (more : α → α) (r r' : Except Stop α) : Prop :=
  match r with
  | .error .wait => True
  | .error (.fail error) => error.tooBig ∨ r' = .error (.fail error)
  | .ok a => r' = .ok (more a)

theorem Persists.bind {α β : Type*} {more : α → α} {more' : β → β} {r r' : Except Stop α}
    {f f' : α → Except Stop β} (first : Persists more r r')
    (rest : ∀ a, r = .ok a → Persists more' (f a) (f' (more a))) :
    Persists more' (r.bind f) (r'.bind f') := by
  match r with
  | .error .wait => exact trivial
  | .error (.fail error) =>
    rcases first with tooBig | same
    · exact Or.inl tooBig
    · rw [same]
      exact Or.inr rfl
  | .ok a =>
    obtain rfl : r' = .ok (more a) := first
    exact rest a rfl

theorem Persists.map {α : Type*} {more : α → α} {r r' : Except Stop α} {f : α → α}
    (first : Persists more r r') (commutes : ∀ a, f (more a) = more (f a)) :
    Persists more (r.map f) (r'.map f) := by
  match r with
  | .error .wait => exact trivial
  | .error (.fail error) =>
    rcases first with tooBig | same
    · exact Or.inl tooBig
    · rw [same]
      exact Or.inr rfl
  | .ok a =>
    obtain rfl : r' = .ok (more a) := first
    exact congrArg Except.ok (commutes a)

theorem newlineAt_persists (error : ProtocolError) (tooBig : error.tooBig) (q b : Bytes) :
    Persists id (newlineAt error q) (newlineAt error (q ++ b)) := by
  cases search : strchr 13 q with
  | none =>
    rw [newlineAt, search]
    dsimp only
    by_cases long : q.length > PROTO_INLINE_MAX_SIZE
    · rw [if_pos long]
      exact Or.inl tooBig
    · rw [if_neg long]
      exact trivial
  | some newline =>
    by_cases short : newline + 2 > q.length
    · rw [newlineAt, search]
      dsimp only
      rw [if_pos short]
      exact trivial
    · rw [newlineAt, newlineAt, search, strchr_append b search]
      dsimp only
      rw [if_neg short, if_neg (by rw [List.length_append]; omega)]
      rfl

/-- The text of a length is not changed by what comes after the line. -/
theorem take_drop_append {newline : ℕ} {q : Bytes} (b : Bytes) (line : newline + 2 ≤ q.length) :
    ((q ++ b).drop 1).take (newline - 1) = (q.drop 1).take (newline - 1) := by
  rw [List.drop_append_of_le_length (by omega),
    List.take_append_of_le_length (by rw [List.length_drop]; omega)]

theorem head?_append_of_pos {q : Bytes} (b : Bytes) (positive : 0 < q.length) :
    (q ++ b).head? = q.head? ∧ (q ++ b).headD 0 = q.headD 0 := by
  match q with
  | _ :: _ => exact ⟨rfl, rfl⟩

@[simp] theorem extend_querybuf (c : Client) (b : Bytes) :
    (c.extend b).querybuf = c.querybuf ++ b :=
  rfl

@[simp] theorem extend_reqtype (c : Client) (b : Bytes) : (c.extend b).reqtype = c.reqtype := rfl

@[simp] theorem extend_multibulklen (c : Client) (b : Bytes) :
    (c.extend b).multibulklen = c.multibulklen := rfl

@[simp] theorem extend_bulklen (c : Client) (b : Bytes) : (c.extend b).bulklen = c.bulklen := rfl

@[simp] theorem extend_commands (c : Client) (b : Bytes) : (c.extend b).commands = c.commands := rfl

theorem readMultibulkLength_persists {newline : ℕ} (b : Bytes)
    (line : newline + 2 ≤ c.querybuf.length) :
    Persists (extend · b) (readMultibulkLength session newline c)
      (readMultibulkLength session newline (c.extend b)) := by
  rw [readMultibulkLength, readMultibulkLength, extend_querybuf, extend_commands,
    take_drop_append b line, List.drop_append_of_le_length line]
  split
  · exact Or.inr rfl
  · split_ifs
    · exact Or.inr rfl
    · exact Or.inr rfl
    · rfl

theorem readBulkLength_persists (b : Bytes) :
    Persists (extend · b) (readBulkLength session c) (readBulkLength session (c.extend b)) := by
  rw [readBulkLength, readBulkLength, extend_bulklen, extend_querybuf, extend_commands]
  cases c.bulklen with
  | some _ => rfl
  | none =>
    have line := newlineAt_persists .tooBigBulkCount trivial c.querybuf b
    cases search : newlineAt .tooBigBulkCount c.querybuf with
    | error stop =>
      rw [search] at line
      match stop with
      | .wait => exact trivial
      | .fail error =>
        rcases line with tooBig | same
        · exact Or.inl tooBig
        · rw [same]
          exact Or.inr rfl
    | ok newline =>
      rw [search] at line
      have bound := newlineAt_ok search
      obtain ⟨head, got⟩ := head?_append_of_pos b (q := c.querybuf) (by omega)
      rw [show newlineAt .tooBigBulkCount (c.querybuf ++ b) = .ok newline from line]
      dsimp only
      rw [take_drop_append b bound, List.drop_append_of_le_length bound, head, got]
      split_ifs
      · exact Or.inr rfl
      · split
        · exact Or.inr rfl
        · split_ifs
          · exact Or.inr rfl
          · exact Or.inr rfl
          · rfl

theorem readBulk_persists (b : Bytes) :
    Persists (extend · b) (readBulk c) (readBulk (c.extend b)) := by
  rw [readBulk, readBulk, extend_bulklen, extend_querybuf]
  cases c.bulklen with
  | none => exact trivial
  | some bulklen =>
    dsimp only
    by_cases short : c.querybuf.length < bulklen + 2
    · rw [if_pos short]
      exact trivial
    · have whole := not_lt.1 short
      rw [if_neg short, if_neg (by rw [List.length_append]; omega),
        List.drop_append_of_le_length whole,
        List.take_append_of_le_length ((Nat.le_add_right _ _).trans whole)]
      rfl

theorem readInline_persists (b : Bytes) :
    Persists (extend · b) c.readInline (c.extend b).readInline := by
  rw [readInline, readInline, extend_querybuf]
  cases search : strchr 10 c.querybuf with
  | none =>
    dsimp only
    by_cases long : c.querybuf.length > PROTO_INLINE_MAX_SIZE
    · rw [if_pos long]
      exact Or.inl trivial
    · rw [if_neg long]
      exact trivial
  | some newline =>
    have bound := strchr_lt search
    rw [strchr_append b search]
    dsimp only
    rw [List.drop_append_of_le_length bound, List.getElem?_append_left (by omega),
      List.take_append_of_le_length (by split_ifs <;> omega)]
    cases sdssplitargs _ with
    | none => exact Or.inr rfl
    | some argv => rfl

theorem finish_extend (c : Client) (b : Bytes) : (c.extend b).finish = c.finish.extend b := by
  by_cases empty : c.argv = []
  · rw [finish, finish, if_pos empty, if_pos (show (c.extend b).argv = [] from empty)]
    rfl
  · rw [finish, finish, if_neg empty, if_neg (show (c.extend b).argv ≠ [] from empty)]
    rfl

theorem advance_extend (c : Client) (b : Bytes) : (c.extend b).advance = c.advance.extend b := by
  rw [advance, advance, extend_multibulklen]
  split_ifs
  · exact finish_extend c b
  · rfl

theorem classify_extend (b : Bytes) (nonempty : c.querybuf ≠ []) :
    (c.extend b).classify = c.classify.extend b := by
  rw [classify, classify, extend_reqtype, extend_querybuf,
    (head?_append_of_pos b (List.length_pos_of_ne_nil nonempty)).1]
  split <;> rfl

theorem progress_persists (b : Bytes) :
    Persists (extend · b) (c.progress session) ((c.extend b).progress session) := by
  rw [progress, progress, extend_reqtype, extend_multibulklen, extend_bulklen]
  cases c.reqtype with
  | none =>
    by_cases empty : c.querybuf = []
    · dsimp only
      rw [if_pos empty]
      exact trivial
    · dsimp only
      rw [extend_querybuf, if_neg empty, if_neg (List.append_ne_nil_of_left_ne_nil empty b)]
      exact congrArg Except.ok (classify_extend b empty)
  | some type =>
    cases type with
    | inline => exact (readInline_persists b).map fun c => finish_extend c b
    | multibulk =>
      dsimp only
      split_ifs
      · have search := newlineAt_persists .tooBigMbulkCount trivial c.querybuf b
        refine search.bind fun newline line => ?_
        exact (readMultibulkLength_persists b (newlineAt_ok line)).map fun c => advance_extend c b
      · cases c.bulklen with
        | none => exact readBulkLength_persists b
        | some _ => exact (readBulk_persists b).map fun c => advance_extend c b

variable (session)

/-- There is the error of a line without an end, or the client is freed. -/
def hasty (c : Client) : Prop := (∃ error, c.error = some error ∧ error.tooBig) ∨ c.freed

/-- The parsers as a reader of the bytes of a connection. -/
def reader : Reader Client UInt8 where
  step := step session
  extend := extend
  hasty := hasty
  extend_nil c := by rw [extend, List.append_nil]
  extend_append c a b := by rw [extend, extend, extend, List.append_assoc]
  step_extend {c c'} b stepped calm := by
    have persists : Persists (Client.extend · b) (c.progress session) _ := progress_persists b
    rw [step] at stepped ⊢
    by_cases closing : c.closing session
    · rw [if_pos closing] at stepped
      cases stepped
    rw [if_neg closing] at stepped
    rw [if_neg (show ¬ (c.extend b).closing session from closing)]
    match read : c.progress session with
    | .error .wait =>
      rw [read] at stepped
      cases stepped
    | .error (.fail error) =>
      rw [read] at stepped persists
      cases stepped
      rcases persists with tooBig | same
      · exact absurd (Or.inl ⟨error, rfl, tooBig⟩) calm
      · rw [same]
        rfl
    | .ok c₁ =>
      rw [read] at stepped persists
      cases stepped
      rw [show (c.extend b).progress session = .ok (c'.extend b) from persists]
  step_hasty := by
    rintro c (⟨error, failed, -⟩ | freed)
    · exact step_of_closing (Or.inl (by rw [failed]; exact Option.some_ne_none _))
    · exact step_of_closing (Or.inr (Or.inl freed))
  hasty_extend _ hasty := hasty

variable {session}

/-- A piece is refused, or processed. -/
theorem read_cases {piece : Bytes} (done : read session c piece = some c') :
    c'.freed ∨ c' ∈ eval (reader session).step ((reader session).extend c piece) := by
  rw [read] at done
  dsimp only at done
  split_ifs at done
  · cases done
    exact Or.inl rfl
  · cases done
    exact Or.inl rfl
  · exact Or.inr (processLoop_mem_eval done)

theorem read_mem_eval {piece : Bytes} (done : read session c piece = some c') (calm : ¬ c'.hasty) :
    c' ∈ eval (reader session).step ((reader session).extend c piece) :=
  (read_cases done).resolve_left fun freed => calm (Or.inr freed)

theorem read_hasty {piece : Bytes} (done : read session c piece = some c') (hasty : c.hasty) :
    c'.hasty := by
  rcases read_cases done with freed | processed
  · exact Or.inr freed
  · have still : (reader session).hasty (c.extend piece) := hasty
    rw [reaches_hasty still (mem_eval.1 processed).1]
    exact hasty

theorem step_start : (reader session).step .start = none := by
  show step session .start = none
  rw [step]
  split_ifs
  · rfl
  · rw [progress_of_nil rfl]

/-! ### No assertion fails -/

/-- What the assertions need and what has been done for the client. -/
structure WellFormed (c : Client) : Prop where
  fresh : c.multibulklen = 0 → c.argv = []
  star : c.reqtype = some .multibulk → c.multibulklen = 0 → c.querybuf.head? = some (ascii '*')
  reply : c.reply = (c.error.map ProtocolError.reply).getD []
  commands : ∀ argv ∈ c.commands, argv ≠ []

theorem wellFormed_start : start.WellFormed :=
  ⟨fun _ => rfl, nofun, rfl, nofun⟩

theorem WellFormed.extend (wellFormed : c.WellFormed) (b : Bytes) : (c.extend b).WellFormed where
  fresh := wellFormed.fresh
  star multibulk idle := by
    have star := wellFormed.star multibulk idle
    have nonempty : 0 < c.querybuf.length := by
      rw [List.length_pos_iff]
      intro empty
      rw [empty] at star
      cases star
    rw [extend_querybuf, (head?_append_of_pos b nonempty).1]
    exact star
  reply := wellFormed.reply
  commands := wellFormed.commands

theorem wellFormed_finish (reply : c.reply = (c.error.map ProtocolError.reply).getD [])
    (commands : ∀ argv ∈ c.commands, argv ≠ []) : c.finish.WellFormed := by
  rw [finish]
  split_ifs with empty
  · exact ⟨fun _ => rfl, nofun, reply, commands⟩
  · refine ⟨fun _ => rfl, nofun, reply, fun argv member => ?_⟩
    rcases List.mem_append.1 member with old | new
    · exact commands argv old
    · rw [List.mem_singleton.1 new]
      exact empty

theorem wellFormed_advance (reply : c.reply = (c.error.map ProtocolError.reply).getD [])
    (commands : ∀ argv ∈ c.commands, argv ≠ []) : c.advance.WellFormed := by
  rw [advance]
  split_ifs with complete
  · exact wellFormed_finish reply commands
  · exact ⟨fun idle => absurd idle complete, fun _ idle => absurd idle complete, reply, commands⟩

theorem wellFormed_classify (wellFormed : c.WellFormed) : c.classify.WellFormed := by
  rw [classify]
  split
  · exact wellFormed
  · refine ⟨wellFormed.fresh, fun multibulk _ => ?_, wellFormed.reply, wellFormed.commands⟩
    by_contra other
    rw [if_neg other] at multibulk
    cases multibulk

theorem wellFormed_progress (wellFormed : c.WellFormed) (read : c.progress session = .ok c') :
    c'.WellFormed := by
  rw [progress] at read
  split at read
  · split_ifs at read
    cases read
    exact wellFormed_classify wellFormed
  · cases line : c.readInline with
    | error stop =>
      rw [line] at read
      cases read
    | ok c₁ =>
      rw [line] at read
      cases read
      obtain ⟨_, _, -, rfl⟩ := readInline_ok line
      exact wellFormed_finish wellFormed.reply wellFormed.commands
  · split_ifs at read with idle
    · rw [count] at read
      cases line : newlineAt .tooBigMbulkCount c.querybuf with
      | error stop =>
        rw [line] at read
        cases read
      | ok newline =>
        rw [line] at read
        cases number : readMultibulkLength session newline c with
        | error stop =>
          dsimp only [Except.bind] at read
          rw [number] at read
          cases read
        | ok c₁ =>
          dsimp only [Except.bind] at read
          rw [number] at read
          cases read
          obtain ⟨_, rfl⟩ := readMultibulkLength_ok number
          exact wellFormed_advance wellFormed.reply wellFormed.commands
    · split at read
      · rcases readBulkLength_ok read with ⟨-, rfl⟩ | ⟨-, _, _, -, rfl⟩
        · exact wellFormed
        · exact ⟨wellFormed.fresh, fun _ zero => absurd zero idle, wellFormed.reply,
            wellFormed.commands⟩
      · cases argument : readBulk c with
        | error stop =>
          rw [argument] at read
          cases read
        | ok c₁ =>
          rw [argument] at read
          cases read
          obtain ⟨_, -, -, rfl⟩ := readBulk_ok argument
          exact wellFormed_advance wellFormed.reply wellFormed.commands

theorem wellFormed_step (wellFormed : c.WellFormed) (stepped : c.step session = some c') :
    c'.WellFormed := by
  rw [step] at stepped
  split_ifs at stepped with closing
  split at stepped
  · cases stepped
  · cases stepped
    have none_before : c.error = none := by
      by_contra failed
      exact closing (Or.inl failed)
    refine ⟨wellFormed.fresh, wellFormed.star, ?_, wellFormed.commands⟩
    rw [fail, wellFormed.reply, none_before]
    rfl
  next read =>
    cases stepped
    exact wellFormed_progress wellFormed read

theorem wellFormed_reaches (wellFormed : c.WellFormed)
    (reaches : StateTransition.Reaches (step session) c c') :
    c'.WellFormed := by
  induction reaches with
  | refl => exact wellFormed
  | tail _ stepped before => exact wellFormed_step before stepped

/-! ### The loop ends -/

theorem bulkLoop_shrinks {missing : ℕ} (looped : bulkLoop session missing c = (c', true)) :
    c'.querybuf.length + 2 * missing ≤ c.querybuf.length := by
  induction missing generalizing c with
  | zero =>
    cases looped
    exact le_refl _
  | succ missing ih =>
    rw [bulkLoop] at looped
    split at looped
    · cases looped
    next c₁ length =>
      split at looped
      · cases looped
      next c₂ argument =>
        have rest := ih looped
        have first : c₁.querybuf.length ≤ c.querybuf.length := by
          rcases readBulkLength_ok length with ⟨-, rfl⟩ | ⟨-, _, _, -, rfl⟩
          · exact le_refl _
          · exact (List.drop_sublist _ _).length_le
        obtain ⟨bulklen, -, enough, rfl⟩ := readBulk_ok argument
        rw [List.length_drop] at rest
        omega

theorem processBuffer_shrinks (processed : c.processBuffer session = some (c', true)) :
    c'.querybuf.length < c.querybuf.length := by
  rw [processBuffer] at processed
  split at processed
  · rw [processInlineBuffer] at processed
    split at processed
    · cases processed
    next line =>
      cases processed
      obtain ⟨_, _, inside, rfl⟩ := readInline_ok line
      rw [List.length_drop]
      omega
  · rw [processMultibulkBuffer] at processed
    by_cases idle : c.multibulklen = 0
    · rw [if_pos idle] at processed
      by_cases dirty : c.argv ≠ []
      · rw [if_pos dirty] at processed
        cases processed
      rw [if_neg dirty] at processed
      split at processed
      · cases processed
      next newline line =>
        have whole := newlineAt_ok line
        by_cases other : c.querybuf.head? ≠ some (ascii '*')
        · rw [if_pos other] at processed
          cases processed
        rw [if_neg other] at processed
        split at processed
        · cases processed
        next c₁ number =>
          have rest := bulkLoop_shrinks (Option.some.inj processed)
          obtain ⟨_, rfl⟩ := readMultibulkLength_ok number
          rw [List.length_drop] at rest
          omega
    · rw [if_neg idle] at processed
      have rest := bulkLoop_shrinks (Option.some.inj processed)
      omega
  · cases processed

theorem processBuffer_isSome (wellFormed : c.WellFormed) (typed : c.reqtype ≠ none) :
    ∃ r, c.processBuffer session = some r := by
  rw [processBuffer]
  split
  · exact ⟨_, rfl⟩
  next multibulk =>
    rw [processMultibulkBuffer]
    by_cases idle : c.multibulklen = 0
    · have star := wellFormed.star multibulk idle
      rw [if_pos idle, if_neg (not_not.2 (wellFormed.fresh idle))]
      split
      · exact ⟨_, rfl⟩
      · rw [if_neg (not_not.2 star)]
        split
        · exact ⟨_, rfl⟩
        · exact ⟨_, rfl⟩
    · rw [if_neg idle]
      exact ⟨_, rfl⟩
  next unknown => exact absurd unknown typed

theorem classify_typed : c.classify.reqtype ≠ none := by
  rw [classify]
  split
  next known =>
    rw [known]
    exact Option.some_ne_none _
  · dsimp only
    split_ifs <;> exact Option.some_ne_none _

theorem classify_querybuf : c.classify.querybuf = c.querybuf := by
  rw [classify]
  split <;> rfl

theorem finish_querybuf : c.finish.querybuf = c.querybuf := by
  rw [finish]
  split_ifs <;> rfl

theorem processLoop_isSome {fuel : ℕ} (wellFormed : c.WellFormed)
    (enough : c.querybuf.length < fuel) : ∃ c', c.processLoop session fuel = some c' := by
  induction fuel generalizing c with
  | zero => exact absurd enough (Nat.not_lt_zero _)
  | succ fuel ih =>
    rw [processLoop]
    split_ifs with empty closing
    · exact ⟨c, rfl⟩
    · exact ⟨c, rfl⟩
    · have typed := wellFormed_classify wellFormed
      obtain ⟨⟨c₁, ok⟩, processed⟩ : ∃ r, c.classify.processBuffer session = some r :=
        processBuffer_isSome typed classify_typed
      rw [processed, Option.bind_some]
      cases ok with
      | false => exact ⟨c₁, rfl⟩
      | true =>
        have shrinks := processBuffer_shrinks processed
        rw [classify_querybuf] at shrinks
        have steps := (processBuffer_steps (closing_classify.not.2 closing) processed).1 rfl
        exact ih (wellFormed_reaches typed steps) (by rw [finish_querybuf]; omega)

theorem WellFormed.free (wellFormed : c.WellFormed) : c.free.WellFormed :=
  ⟨wellFormed.fresh, wellFormed.star, wellFormed.reply, wellFormed.commands⟩

theorem processInputBuffer_wellFormed (wellFormed : c.WellFormed) :
    ∃ c', processInputBuffer session c = some c' ∧ c'.WellFormed := by
  obtain ⟨c', done⟩ : ∃ c', processInputBuffer session c = some c' :=
    processLoop_isSome wellFormed (Nat.lt_succ_self _)
  have reaches := (mem_eval.1 (processLoop_mem_eval done)).1
  exact ⟨c', done, wellFormed_reaches wellFormed reaches⟩

theorem read_wellFormed (wellFormed : c.WellFormed) (piece : Bytes) :
    ∃ c', read session c piece = some c' ∧ c'.WellFormed := by
  have extended := wellFormed.extend piece
  rw [read]
  dsimp only
  split_ifs
  · exact ⟨_, rfl, wellFormed.free⟩
  · exact ⟨_, rfl, extended.free⟩
  · exact processInputBuffer_wellFormed extended

/-- The replies are lines. -/
theorem newline_notMem_text (error : ProtocolError) : 13 ∉ error.text ∧ 10 ∉ error.text := by
  cases error with
  | expectedDollar got =>
    have blank : 13 ≠ blankNewline got ∧ 10 ≠ blankNewline got := by
      rw [blankNewline]
      split_ifs with newline
      · decide
      · exact
          ⟨fun carriage => newline (Or.inl carriage.symm), fun feed => newline (Or.inr feed.symm)⟩
    rw [ProtocolError.text, List.mem_append, List.mem_append, List.mem_pair, List.mem_pair]
    exact ⟨not_or.2 ⟨by decide +kernel, not_or.2 ⟨blank.1, by decide⟩⟩,
      not_or.2 ⟨by decide +kernel, not_or.2 ⟨blank.2, by decide⟩⟩⟩
  | _ => decide +kernel

theorem run_read_wellFormed (pieces : List Bytes) :
    ∃ c, run (read session) .start pieces = some c ∧ c.WellFormed := by
  suffices general : ∀ c : Client, c.WellFormed →
      ∃ c', run (read session) c pieces = some c' ∧ c'.WellFormed from
    general _ wellFormed_start
  induction pieces with
  | nil => exact fun c wellFormed => ⟨c, rfl, wellFormed⟩
  | cons piece pieces ih =>
    intro c wellFormed
    obtain ⟨c₁, done, wellFormed₁⟩ : ∃ c', read session c piece = some c' ∧ _ :=
      read_wellFormed wellFormed piece
    rw [run_cons, done, Option.bind_some]
    exact ih c₁ wellFormed₁

/-- **Whatever comes, in whatever pieces, is read without a failed assertion and in finitely many
steps.**  No empty command is executed, and the client is sent nothing or the line of one error. -/
theorem request_safe (pieces : List Bytes) :
    ∃ c, run (read session) .start pieces = some c ∧ (∀ argv ∈ c.commands, argv ≠ []) ∧
      (c.reply = [] ∨ ∃ text, c.reply = literal "-ERR " ++ text ++ [13, 10] ∧ 13 ∉ text ∧
        10 ∉ text) := by
  obtain ⟨c, ran, wellFormed⟩ : ∃ c, run (read session) .start pieces = some c ∧ _ :=
    run_read_wellFormed pieces
  refine ⟨c, ran, wellFormed.commands, ?_⟩
  rw [wellFormed.reply]
  cases c.error with
  | none => exact Or.inl rfl
  | some error => exact Or.inr ⟨error.text, rfl, newline_notMem_text error⟩

/-- **The pieces do not matter**, unless in one of the runs a line without an end is given up or the
client is freed. -/
theorem request_pieces {pieces pieces' : List Bytes} (same : pieces.flatten = pieces'.flatten)
    (ran : run (read session) .start pieces = some c) (calm : ¬ c.hasty)
    (ran' : run (read session) .start pieces' = some c') (calm' : ¬ c'.hasty) : c = c' :=
  run_eq read_mem_eval read_hasty step_start ran calm ran' calm' same

/-- A command that comes in two pieces, with a line break cut in two. -/
theorem request_pieces_ping :
    ∃ c c', run (read fun _ => ⟨512, 4096, 0, false, false⟩) .start
        [literal "*1\r\n$4\r", literal "\nPING\r\n"] = some c ∧
      run (read fun _ => ⟨512, 4096, 0, false, false⟩) .start [literal "*1\r\n$4\r\nPING\r\n"] =
        some c' ∧
      c = c' := by
  have same : [literal "*1\r\n$4\r", literal "\nPING\r\n"].flatten =
      [literal "*1\r\n$4\r\nPING\r\n"].flatten := by
    decide +kernel
  have calm : ¬ { start with commands := [[literal "PING"]] }.hasty := by
    rintro (⟨_, failed, -⟩ | freed)
    · cases failed
    · cases freed
  have cut : run (read fun _ => ⟨512, 4096, 0, false, false⟩) .start
      [literal "*1\r\n$4\r", literal "\nPING\r\n"] =
        some { start with commands := [[literal "PING"]] } := by
    decide +kernel
  have whole : run (read fun _ => ⟨512, 4096, 0, false, false⟩) .start
      [literal "*1\r\n$4\r\nPING\r\n"] = some { start with commands := [[literal "PING"]] } := by
    decide +kernel
  exact ⟨_, _, cut, whole, request_pieces same cut calm whole calm⟩

end Client

end CodeNotes.RedisServer
