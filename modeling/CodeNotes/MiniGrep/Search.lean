import CodeNotes.Lib.Lowercase

/-!
# The line search

The mini-grep program: it reads a query and a file name from its arguments, and prints the lines of
the file that contain the query, or whose lower-case text contains the lower-case query when
`IGNORE_CASE` is set.  Lower-casing is that of `Lowercase.CaseTables`, where the image of a capital
sigma depends on the text around it.  Ignoring case therefore keeps every line that the plain search
finds, in every file, exactly for the queries whose capital sigmas are not exposed
(`search_sublist_iff`).
-/

namespace CodeNotes.MiniGrep

open Lowercase

/-! ### The program -/

/-- The pieces of a text, each up to and with a line feed. -/
def splitInclusive : List Char → List (List Char)
  | [] => []
  | c :: rest =>
    if c = '\n' then ['\n'] :: splitInclusive rest
    else
      match splitInclusive rest with
      | [] => [[c]]
      | piece :: pieces => (c :: piece) :: pieces

/-- Drop a line feed at the end, and then a carriage return before it. -/
def stripLineEnding (piece : List Char) : List Char :=
  if piece.getLast? = some '\n' then
    if piece.dropLast.getLast? = some '\r' then piece.dropLast.dropLast else piece.dropLast
  else piece

def lines (contents : List Char) : List (List Char) :=
  (splitInclusive contents).map stripLineEnding

def search (query contents : List Char) : List (List Char) :=
  (lines contents).filter fun line => query <:+: line

def searchCaseInsensitive (t : CaseTables) (query contents : List Char) : List (List Char) :=
  let query := t.toLowercase query
  (lines contents).filter fun line => query <:+: t.toLowercase line

structure Config where
  query : List Char
  filePath : List Char
  ignoreCase : Bool

/-- `Config::build`; `none` is the panic of a process without even its own name as argument. -/
def Config.build (ignoreCase : Bool) : List (List Char) → Option (Except String Config)
  | [] => none
  | [_] => some (.error "Didn't get a query string")
  | [_, _] => some (.error "Didn't get a file name")
  | _ :: query :: filePath :: _ => some (.ok ⟨query, filePath, ignoreCase⟩)

/-- The lines that are printed; `readToString` is the file system. -/
def run {ε : Type} (t : CaseTables) (readToString : List Char → Except ε (List Char))
    (config : Config) : Except ε (List (List Char)) := do
  let contents ← readToString config.filePath
  return if config.ignoreCase then searchCaseInsensitive t config.query contents
    else search config.query contents

/-- How the process ends. -/
inductive Outcome where
  | panic
  | exit (code : Nat) (stderr : String)
  | done (stdout : List (List Char))

def main {ε : Type} (t : CaseTables) (readToString : List Char → Except ε (List Char))
    (ignoreCase : Bool) (args : List (List Char)) : Outcome :=
  match Config.build ignoreCase args with
  | none => .panic
  | some (.error err) => .exit 1 err
  | some (.ok config) =>
    match run t readToString config with
    | .error _ => .panic
    | .ok results => .done results

/-! ### Lines -/

theorem splitInclusive_of_not_mem {text : List Char} (whole : '\n' ∉ text) (nonempty : text ≠ []) :
    splitInclusive text = [text] := by
  induction text with
  | nil => exact absurd rfl nonempty
  | cons c text ih =>
    obtain ⟨first, rest⟩ := not_or.1 (List.mem_cons.not.1 whole)
    rw [splitInclusive, if_neg (Ne.symm first)]
    by_cases last : text = []
    · subst last
      rfl
    · rw [ih rest last]

/-- A line feed stands only at the end of a piece. -/
theorem not_mem_dropLast_of_mem_splitInclusive {text piece : List Char}
    (mem : piece ∈ splitInclusive text) : piece ≠ [] ∧ '\n' ∉ piece.dropLast := by
  induction text generalizing piece with
  | nil => simp [splitInclusive] at mem
  | cons c text ih =>
    rw [splitInclusive] at mem
    split_ifs at mem with feed
    · rcases List.mem_cons.1 mem with rfl | mem
      · simp
      · exact ih mem
    · cases rest : splitInclusive text with
      | nil =>
        rw [rest, List.mem_singleton] at mem
        subst mem
        simp
      | cons first pieces =>
        rw [rest] at mem ih
        rcases List.mem_cons.1 mem with rfl | mem
        · obtain ⟨nonempty, free⟩ := ih List.mem_cons_self
          rw [List.dropLast_cons_of_ne_nil nonempty, List.mem_cons, not_or]
          exact ⟨List.cons_ne_nil _ _, Ne.symm feed, free⟩
        · exact ih (List.mem_cons_of_mem _ mem)

theorem not_mem_stripLineEnding {piece : List Char} (nonempty : piece ≠ [])
    (free : '\n' ∉ piece.dropLast) : '\n' ∉ stripLineEnding piece := by
  unfold stripLineEnding
  split_ifs with feed carriage
  · intro mem
    exact free (List.mem_of_mem_dropLast mem)
  · exact free
  · rw [List.getLast?_eq_some_getLast nonempty, Option.some_inj] at feed
    rw [← List.dropLast_concat_getLast nonempty, List.mem_append, List.mem_singleton, not_or]
    exact ⟨free, Ne.symm feed⟩

theorem not_mem_of_mem_lines {contents line : List Char} (mem : line ∈ lines contents) :
    '\n' ∉ line := by
  obtain ⟨piece, isPiece, rfl⟩ := List.mem_map.1 mem
  obtain ⟨nonempty, free⟩ := not_mem_dropLast_of_mem_splitInclusive isPiece
  exact not_mem_stripLineEnding nonempty free

/-- A text without a line feed is one line. -/
theorem lines_of_not_mem {text : List Char} (whole : '\n' ∉ text) (nonempty : text ≠ []) :
    lines text = [text] := by
  rw [lines, splitInclusive_of_not_mem whole nonempty, List.map_singleton, stripLineEnding, if_neg]
  intro feed
  exact whole (List.mem_of_getLast? feed)

/-! ### The two searches -/

section Searches

variable (t : CaseTables)

/-- A settled query that occurs in a line occurs in it without case. -/
theorem infix_toLowercase {query line : List Char} (settled : t.Settled query)
    (found : query <:+: line) : t.toLowercase query <:+: t.toLowercase line := by
  obtain ⟨left, right, rfl⟩ := found
  rw [t.toLowercase_append, t.lowerIn_of_settled settled]
  exact List.infix_append _ _ _

theorem search_eq_nil {query : List Char} (feed : '\n' ∈ query) (contents : List Char) :
    search query contents = [] := by
  apply List.filter_eq_nil_iff.2
  intro line mem
  rw [decide_eq_true_iff]
  intro found
  exact not_mem_of_mem_lines mem (found.subset feed)

theorem search_sublist {query : List Char} (safe : '\n' ∈ query ∨ t.Settled query)
    (contents : List Char) :
    (search query contents).Sublist (searchCaseInsensitive t query contents) := by
  rcases safe with feed | settled
  · rw [search_eq_nil feed]
    exact List.nil_sublist _
  · apply List.monotone_filter_right
    intro line found
    rw [decide_eq_true_iff] at found ⊢
    exact infix_toLowercase t settled found

/-- A query without a capital sigma loses no line. -/
theorem search_sublist_of_not_mem {query : List Char} (none : 'Σ' ∉ query) (contents : List Char) :
    (search query contents).Sublist (searchCaseInsensitive t query contents) :=
  search_sublist t (Or.inr (t.settled_of_not_mem none)) contents

example : (search "Rust".toList "Rust:\r\nsafe\nTrust me.".toList).Sublist
    (searchCaseInsensitive ascii "Rust".toList "Rust:\r\nsafe\nTrust me.".toList) := by decide

/-- An exposed capital sigma of the query loses a line of some contents. -/
theorem exists_lost_line {query : List Char} (oneLine : '\n' ∉ query)
    (exposed : ¬ t.Settled query) :
    ∃ contents, search query contents = [contents] ∧
      searchCaseInsensitive t query contents = [] := by
  simp only [CaseTables.Settled, not_forall, not_not] at exposed
  obtain ⟨u, v, rfl, exposed⟩ := exposed
  obtain ⟨left, right, around, missing⟩ := t.exists_context_of_exposed exposed
  refine ⟨left ++ (u ++ 'Σ' :: v) ++ right, ?_⟩
  have whole : lines (left ++ (u ++ 'Σ' :: v) ++ right) = [left ++ (u ++ 'Σ' :: v) ++ right] := by
    apply lines_of_not_mem
    · intro feed
      have inContext : '\n' ∈ left ++ right := by
        simp only [List.mem_append] at feed oneLine ⊢
        tauto
      rw [around] at inContext
      simp at inContext
    · simp
  constructor
  · rw [search, whole, List.filter_singleton, decide_eq_true (List.infix_append _ _ _)]
    rfl
  · rw [searchCaseInsensitive, whole, List.filter_singleton, decide_eq_false missing]
    rfl

/-- **Ignoring case finds every line of the plain search, in order, whatever the contents**, exactly
when the query spans lines (and nothing is found) or none of its capital sigmas is exposed. -/
theorem search_sublist_iff (query : List Char) :
    (∀ contents, (search query contents).Sublist (searchCaseInsensitive t query contents)) ↔
      '\n' ∈ query ∨ t.Settled query := by
  constructor
  · intro claim
    by_contra neither
    obtain ⟨oneLine, exposed⟩ := not_or.1 neither
    obtain ⟨contents, found, lost⟩ := exists_lost_line t oneLine exposed
    have nothing := claim contents
    rw [found, lost] at nothing
    cases nothing
  · exact search_sublist t

/-- The line `aΣa` contains `aΣ`, but `aσa` does not contain `aς`, with every lower-case table. -/
theorem search_not_sublist :
    ¬ ∃ t : CaseTables, ∀ query contents,
      (search query contents).Sublist (searchCaseInsensitive t query contents) := by
  rintro ⟨t, claim⟩
  have found : search ['a', 'Σ'] ['a', 'Σ', 'a'] = [['a', 'Σ', 'a']] := by decide
  have line : t.toLowercase ['a', 'Σ', 'a'] = ['a', 'σ', 'a'] := by
    simp [CaseTables.toLowercase, CaseTables.lowerIn, CaseTables.mapUppercaseSigma,
      CaseTables.finalSigma, CaseTables.ignorableThenCased, t.lower_a, t.cased_a, t.caseIgnorable_a]
  have query : t.toLowercase ['a', 'Σ'] = ['a', 'ς'] := by
    simp [CaseTables.toLowercase, CaseTables.lowerIn, CaseTables.mapUppercaseSigma,
      CaseTables.finalSigma, CaseTables.ignorableThenCased, t.lower_a, t.cased_a, t.caseIgnorable_a]
  have lost : searchCaseInsensitive t ['a', 'Σ'] ['a', 'Σ', 'a'] = [] := by
    rw [searchCaseInsensitive, query, lines_of_not_mem (by decide) (by decide),
      List.filter_singleton, line]
    decide
  have nothing := claim ['a', 'Σ'] ['a', 'Σ', 'a']
  rw [found, lost] at nothing
  cases nothing

/-- The printed lines of a run without `IGNORE_CASE` are printed with it. -/
theorem main_stdout_sublist {ε : Type} {readToString : List Char → Except ε (List Char)}
    {program query filePath : List Char} {rest stdout : List (List Char)}
    (safe : '\n' ∈ query ∨ t.Settled query)
    (plain : main t readToString false (program :: query :: filePath :: rest) = .done stdout) :
    ∃ stdout', main t readToString true (program :: query :: filePath :: rest) = .done stdout' ∧
      stdout.Sublist stdout' := by
  cases contents : readToString filePath with
  | error err => simp [main, Config.build, run, contents, bind, Except.bind] at plain
  | ok contents' =>
    simp only [main, Config.build, run, contents, bind, Except.bind, pure, Except.pure,
      Bool.false_eq_true, if_false, if_true, Outcome.done.injEq] at plain ⊢
    subst plain
    exact ⟨_, rfl, search_sublist t safe contents'⟩

end Searches

end CodeNotes.MiniGrep
