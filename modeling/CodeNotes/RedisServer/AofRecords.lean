import CodeNotes.RedisServer.Aof

/-!
# Records of the append only file

The file is a sequence of records: commands, and annotations with a time.  A complete record is read
in one round of the loader (`loadRound_text`).  If the file ends inside of a command, the loader
notices it, wherever that is: in the digits of a length, the argument, or the line break after it
(`loadRound_cut`).
-/

namespace CodeNotes.RedisServer

open Redis Decimal Run

/-! ### Numbers -/

theorem isDigit_of_mem_decimalText {n : ℕ} {c : UInt8} (member : c ∈ decimalText n) :
    isDigit c := by
  obtain ⟨digit, inside, rfl⟩ := List.mem_map.1 member
  exact (digitOf_digitByte (lt_of_mem_decimal inside)).1

theorem map_digitOf_decimalText (n : ℕ) : (decimalText n).map digitOf = decimal n := by
  rw [decimalText, List.map_map]
  conv_rhs => rw [← List.map_id (decimal n)]
  exact List.map_congr_left fun digit member => (digitOf_digitByte (lt_of_mem_decimal member)).2

theorem decimalText_ne_nil (n : ℕ) : decimalText n ≠ [] := by
  intro empty
  have length := congrArg List.length empty
  rw [decimalText, List.length_map, length_decimal] at length
  cases length

theorem length_decimalText_le {n : ℕ} (small : n < 2 ^ 63) : (decimalText n).length ≤ 20 := by
  rw [length_decimalText]
  exact digits10_le (by omega)

/-- A number is read up to the first byte that is not a digit. -/
theorem strtol_digits {p : Bytes} (q : Bytes) (nonempty : p ≠ []) (digits : ∀ c ∈ p, isDigit c)
    (stops : ∀ c ∈ q.head?, ¬ isDigit c) :
    strtol (p ++ q) = min (2 ^ 63 - 1) (value 0 (p.map digitOf) : ℤ) := by
  have leading : leadingNumber (p ++ q) = value 0 (p.map digitOf) := by
    have whole : (p ++ q).takeWhile (fun c => isDigit c) = p := by
      rw [List.takeWhile_append_of_pos fun c member => decide_eq_true (digits c member)]
      match q with
      | [] => rw [List.takeWhile_nil, List.append_nil]
      | c :: q =>
        rw [List.takeWhile_cons_of_neg (by simpa using stops c rfl), List.append_nil]
    rw [leadingNumber, whole]
  match p with
  | c :: p =>
    have digit := digits c List.mem_cons_self
    have visible : ¬ isSpace c := by
      revert digit
      exact MachineInt.forall_octet (p := fun c => isDigit c → ¬ isSpace c) (by decide +kernel) c
    have sign : c ≠ ascii '-' ∧ c ≠ ascii '+' := by
      constructor <;> rintro rfl <;> exact absurd digit (by decide)
    rw [List.cons_append] at leading ⊢
    rw [strtol, List.dropWhile_cons_of_neg (by simpa using visible)]
    dsimp only
    rw [if_neg sign.1, if_neg sign.2, leading]

theorem not_isDigit_return {q : Bytes} : ∀ c ∈ (13 :: q : Bytes).head?, ¬ isDigit c := by
  rintro c member
  obtain rfl : 13 = c := Option.some.inj member
  decide

theorem strtol_decimalText {n : ℕ} (small : n < 2 ^ 63) (q : Bytes)
    (stops : ∀ c ∈ q.head?, ¬ isDigit c) : strtol (decimalText n ++ q) = n := by
  rw [strtol_digits q (decimalText_ne_nil n) (fun c => isDigit_of_mem_decimalText) stops,
    map_digitOf_decimalText, value_decimal]
  omega

/-- A number that is cut off is not larger, and not zero if some of it is there. -/
theorem strtol_cut {n : ℕ} {t : Bytes} (small : n < 2 ^ 63) (cut : t <+: decimalText n ++ [13]) :
    ∃ m ≤ n, strtol t = m ∧ (n ≠ 0 → t ≠ [] → m ≠ 0) := by
  rcases List.prefix_concat_iff.1 cut with rfl | cut
  · exact ⟨n, le_refl n, strtol_decimalText small [13] not_isDigit_return,
      fun positive _ => positive⟩
  obtain ⟨q, whole⟩ := cut
  by_cases empty : t = []
  · rw [empty]
    exact ⟨0, Nat.zero_le n, rfl, fun _ absurdity => absurd rfl absurdity⟩
  have digits : ∀ c ∈ t, isDigit c := fun c member =>
    isDigit_of_mem_decimalText (n := n) (by rw [← whole]; exact List.mem_append_left q member)
  have value_eq : value (value 0 (t.map digitOf)) (q.map digitOf) = n := by
    have all := congrArg (fun p => value 0 (p.map digitOf)) whole
    rw [map_digitOf_decimalText, value_decimal, List.map_append] at all
    rw [← all, value, value, value, List.foldl_append]
  have bound : value 0 (t.map digitOf) ≤ n := (le_value _ _).trans_eq value_eq
  have read := strtol_digits [] empty digits (by rintro c ⟨⟩)
  rw [List.append_nil] at read
  refine ⟨_, bound, by rw [read]; omega, fun positive _ zero => ?_⟩
  -- the first digit of a positive number is not zero
  obtain ⟨digit, rest, first, nonzero⟩ := exists_decimal_eq_cons positive
  cases t with
  | nil => exact empty rfl
  | cons c t =>
    have head : digitOf c = digit := by
      have all := congrArg (List.map digitOf) whole
      rw [map_digitOf_decimalText, first, List.cons_append, List.map_cons] at all
      exact (List.cons.inj all).1
    rw [List.map_cons, value_cons, head] at zero
    have lower := le_value (0 * 10 + digit) (t.map digitOf)
    omega

/-! ### Lines -/

theorem findIdx?_eq_none {p : Bytes} (clean : 10 ∉ p) : p.findIdx? (· = 10) = none := by
  rw [List.findIdx?_eq_none_iff]
  intro c member
  exact decide_eq_false fun same => clean (same ▸ member)

theorem fgets_line {size : ℕ} {line : Bytes} (rest : Bytes) (short : line.length + 1 < size)
    (clean : 10 ∉ line) : fgets size (line ++ 10 :: rest) = some (line ++ [10], rest, false) := by
  obtain ⟨more, rfl⟩ := Nat.exists_eq_add_of_lt short
  have start : (line ++ 10 :: rest).take (line.length + 1 + more + 1 - 1) =
      line ++ 10 :: rest.take more := by
    rw [Nat.add_sub_cancel, Nat.add_assoc, List.take_length_add_append, Nat.add_comm 1 more,
      List.take_succ_cons]
  have found : (line ++ 10 :: rest.take more).findIdx? (· = 10) = some line.length := by
    rw [List.findIdx?_append, findIdx?_eq_none clean, List.findIdx?_cons]
    simp
  rw [fgets, if_neg (by simp), start, found]
  dsimp only
  rw [List.take_length_add_append, List.drop_length_add_append]
  rfl

theorem fgets_cut {size : ℕ} {p : Bytes} (nonempty : p ≠ []) (short : p.length < size - 1)
    (clean : 10 ∉ p) : fgets size p = some (p, [], true) := by
  rw [fgets, if_neg nonempty, List.take_of_length_le (by omega), findIdx?_eq_none clean,
    List.drop_eq_nil_of_le (by omega), decide_eq_true short]

theorem fread_append {len : ℕ} {p : Bytes} (q : Bytes) (length : p.length = len) :
    fread len (p ++ q) = some (p, q) := by
  rw [fread, if_neg (by rw [List.length_append]; omega), List.take_left' length,
    List.drop_left' length]

theorem prefix_line {p line rest : Bytes} (cut : p <+: line ++ 10 :: rest) :
    p <+: line ∨ ∃ r, p = line ++ 10 :: r ∧ r <+: rest := by
  obtain ⟨q, whole⟩ := cut
  rcases List.append_eq_append_iff.1 whole with ⟨c, rfl, -⟩ | ⟨c, rfl, rest_eq⟩
  · exact Or.inl (List.prefix_append p c)
  · match c with
    | [] =>
      rw [List.append_nil]
      exact Or.inl (List.prefix_refl _)
    | _ :: r =>
      obtain ⟨rfl, same⟩ := List.cons.inj rest_eq
      exact Or.inr ⟨r, rfl, by rw [same]; exact List.prefix_append r q⟩

/-! ### The text of a command -/

/-- A line with a length, without the line feed. -/
def header (marker : UInt8) (n : ℕ) : Bytes := marker :: decimalText n ++ [13]

def bulkText (arg : Bytes) : Bytes := header (ascii '$') arg.length ++ 10 :: (arg ++ [13, 10])

def commandText (argv : List Bytes) : Bytes :=
  header (ascii '*') argv.length ++ 10 :: argv.flatMap bulkText

theorem newline_notMem_header {marker : UInt8} (n : ℕ) (other : marker ≠ 10) :
    10 ∉ header marker n := by
  rw [header, List.mem_append, List.mem_cons, List.mem_singleton]
  rintro ((same | member) | same)
  · exact other same.symm
  · exact absurd (isDigit_of_mem_decimalText member) (by decide)
  · cases same

theorem length_header_le (marker : UInt8) {n : ℕ} (small : n < 2 ^ 63) :
    (header marker n).length ≤ 22 := by
  have digits := length_decimalText_le small
  rw [header, List.length_append, List.length_cons, List.length_singleton]
  omega

theorem lengthLine_eq (marker : UInt8) {n : ℕ} (small : n < 2 ^ 63) :
    lengthLine marker n = some (header marker n ++ [10]) := by
  have text : integerText n = decimalText n := if_neg (by omega)
  have digits := length_decimalText_le small
  rw [lengthLine, ll2string_spec (by omega) (by omega) (by decide), Option.bind_some]
  dsimp only
  rw [text, if_pos (by omega), List.take_left' rfl, header, List.append_assoc]
  rfl

theorem catBulk_eq (dst : Bytes) {arg : Bytes} (small : arg.length < 2 ^ 63) :
    catBulk dst arg = some (dst ++ bulkText arg) := by
  rw [catBulk, lengthLine_eq _ small, Option.map_some, bulkText]
  simp only [List.append_assoc, List.cons_append, List.nil_append]

theorem catAppendOnlyGenericCommand_eq (dst : Bytes) {argv : List Bytes}
    (count : argv.length < 2 ^ 63) (lengths : ∀ arg ∈ argv, arg.length < 2 ^ 63) :
    catAppendOnlyGenericCommand dst argv = some (dst ++ commandText argv) := by
  have loop (args : List Bytes) (lengths : ∀ arg ∈ args, arg.length < 2 ^ 63) (dst : Bytes) :
      run catBulk dst args = some (dst ++ args.flatMap bulkText) := by
    induction args generalizing dst with
    | nil =>
      rw [List.flatMap_nil, List.append_nil]
      rfl
    | cons arg args ih =>
      obtain ⟨small, rest⟩ := List.forall_mem_cons.1 lengths
      rw [run_cons, catBulk_eq dst small, Option.bind_some, ih rest, List.flatMap_cons,
        List.append_assoc]
  rw [catAppendOnlyGenericCommand, lengthLine_eq _ count, Option.bind_some, loop argv lengths,
    commandText]
  simp only [List.append_assoc, List.singleton_append]

theorem selectText_eq (id : ℕ) :
    selectText id = commandText [literal "SELECT", decimalText id] := by
  have start : literal "*2\r\n$6\r\nSELECT\r\n$" =
      header (ascii '*') 2 ++ 10 :: (bulkText (literal "SELECT") ++ [ascii '$']) := by
    decide +kernel
  rw [selectText, start]
  simp only [commandText, bulkText, header, List.flatMap_cons, List.flatMap_nil, List.length_cons,
    List.length_nil, List.append_assoc, List.cons_append, List.nil_append, List.append_nil,
    Nat.reduceAdd]

/-! ### Reading a command -/

variable {σ : Type*} {server : AofServer σ}

/-- A command that can be loaded. -/
structure Fits (server : AofServer σ) (argv : List Bytes) : Prop where
  nonempty : argv ≠ []
  count : argv.length ≤ INT_MAX
  memory : 8 * argv.length ≤ server.memory
  lengths : ∀ arg ∈ argv, arg.length ≤ server.memory ∧ arg.length < 2 ^ 63

theorem Fits.cat {argv : List Bytes} (fits : Fits server argv) (dst : Bytes) :
    catAppendOnlyGenericCommand dst argv = some (dst ++ commandText argv) := by
  have count := fits.count
  rw [INT_MAX] at count
  exact catAppendOnlyGenericCommand_eq dst (by omega) fun arg member => (fits.lengths arg member).2

/-- The line with a length is read up to the line feed. -/
theorem fgets_header {marker : UInt8} {n : ℕ} (rest : Bytes) (other : marker ≠ 10)
    (small : n < 2 ^ 63) :
    fgets AOF_ANNOTATION_LINE_MAX_LEN (header marker n ++ 10 :: rest) =
      some (marker :: (decimalText n ++ [13, 10]), rest, false) := by
  have length := length_header_le marker small
  rw [fgets_line rest (by rw [AOF_ANNOTATION_LINE_MAX_LEN]; omega) (newline_notMem_header n other),
    header]
  simp only [List.append_assoc, List.cons_append, List.nil_append]

theorem fgets_header_cut {marker : UInt8} {n : ℕ} {p : Bytes} (other : marker ≠ 10)
    (small : n < 2 ^ 63) (cut : p <+: header marker n) (nonempty : p ≠ []) :
    ∃ t, p = marker :: t ∧ t <+: decimalText n ++ [13] ∧
      fgets AOF_ANNOTATION_LINE_MAX_LEN p = some (p, [], true) := by
  have length := cut.length_le.trans (length_header_le marker small)
  match p with
  | c :: t =>
    obtain ⟨rfl, rest⟩ := List.cons_prefix_cons.1 cut
    refine ⟨t, rfl, rest, fgets_cut nonempty (by rw [AOF_ANNOTATION_LINE_MAX_LEN]; omega) ?_⟩
    exact fun member => newline_notMem_header n other (cut.subset member)

theorem fread_short {len : ℕ} {p : Bytes} (short : p.length < len) : fread len p = none :=
  if_pos short

theorem bulk_length {arg : Bytes} (small : arg.length < 2 ^ 63) :
    (strtol ((ascii '$' :: (decimalText arg.length ++ [13, 10])).drop 1) % 2 ^ 64).toNat =
      arg.length := by
  rw [List.drop_one, List.tail_cons, strtol_decimalText small [13, 10] not_isDigit_return]
  omega

theorem readArgs_bulk (argc : ℕ) {arg : Bytes} (rest : Bytes)
    (fits : arg.length ≤ server.memory ∧ arg.length < 2 ^ 63) :
    readArgs server (argc + 1) (bulkText arg ++ rest) =
      match readArgs server argc rest with
      | .error reason => .error reason
      | .ok (args, file) => .ok (arg :: args, file) := by
  have text : bulkText arg ++ rest =
      header (ascii '$') arg.length ++ 10 :: (arg ++ ([13, 10] ++ rest)) := by
    rw [bulkText]
    simp only [List.append_assoc, List.cons_append]
  rw [text, readArgs, fgets_header _ (by decide) fits.2]
  dsimp only
  rw [List.head?_cons, if_neg (not_not.2 rfl), bulk_length fits.2, if_neg (not_lt.2 fits.1),
    fread_append _ rfl]
  rfl

/-- The end of the file inside of an argument is noticed. -/
theorem readArgs_bulk_cut (argc : ℕ) {arg p : Bytes}
    (fits : arg.length ≤ server.memory ∧ arg.length < 2 ^ 63) (cut : p <+: bulkText arg)
    (missing : p ≠ bulkText arg) : readArgs server (argc + 1) p = .error .short := by
  by_cases empty : p = []
  · rw [empty]
    rfl
  have shorter : p.length < (bulkText arg).length :=
    lt_of_le_of_ne cut.length_le fun same => missing (cut.eq_of_length same)
  rw [readArgs]
  rcases prefix_line cut with cut | ⟨t, rfl, cut⟩
  · obtain ⟨t, rfl, digits, line⟩ := fgets_header_cut (by decide) fits.2 cut empty
    obtain ⟨m, small, number, -⟩ := strtol_cut fits.2 digits
    have length : (strtol ((ascii '$' :: t).drop 1) % 2 ^ 64).toNat = m := by
      rw [List.drop_one, List.tail_cons, number]
      omega
    rw [line]
    dsimp only
    rw [List.head?_cons, if_neg (not_not.2 rfl), length, if_neg (not_lt.2 (small.trans fits.1))]
    cases m with
    | zero => rfl
    | succ m => rfl
  · rw [fgets_header _ (by decide) fits.2]
    dsimp only
    rw [List.head?_cons, if_neg (not_not.2 rfl), bulk_length fits.2, if_neg (not_lt.2 fits.1)]
    by_cases short : t.length < arg.length
    · rw [fread_short short]
    · rw [bulkText, List.length_append, List.length_append, List.length_cons, List.length_cons,
        List.length_append, List.length_cons, List.length_singleton] at shorter
      rw [fread, if_neg short]
      dsimp only
      rw [fread_short (by rw [List.length_drop]; omega)]

theorem readArgs_text {args : List Bytes} (rest : Bytes)
    (fits : ∀ arg ∈ args, arg.length ≤ server.memory ∧ arg.length < 2 ^ 63) :
    readArgs server args.length (args.flatMap bulkText ++ rest) = .ok (args, rest) := by
  induction args with
  | nil => rfl
  | cons arg args ih =>
    obtain ⟨first, others⟩ := List.forall_mem_cons.1 fits
    rw [List.flatMap_cons, List.append_assoc, List.length_cons, readArgs_bulk _ _ first, ih others]

theorem prefix_append_cases {α : Type*} {p a b : List α} (cut : p <+: a ++ b) :
    (p <+: a ∧ p ≠ a) ∨ ∃ r, p = a ++ r ∧ r <+: b := by
  obtain ⟨q, whole⟩ := cut
  rcases List.append_eq_append_iff.1 whole with ⟨c, rfl, rfl⟩ | ⟨c, rfl, rfl⟩
  · by_cases same : p = p ++ c
    · rw [List.self_eq_append_right] at same
      rw [same, List.append_nil]
      exact Or.inr ⟨[], (List.append_nil p).symm, List.nil_prefix⟩
    · exact Or.inl ⟨List.prefix_append p c, same⟩
  · exact Or.inr ⟨c, rfl, List.prefix_append c q⟩

/-- The end of the file inside of the arguments is noticed. -/
theorem readArgs_cut {args : List Bytes} {p : Bytes}
    (fits : ∀ arg ∈ args, arg.length ≤ server.memory ∧ arg.length < 2 ^ 63)
    (cut : p <+: args.flatMap bulkText) (missing : p ≠ args.flatMap bulkText) :
    readArgs server args.length p = .error .short := by
  induction args generalizing p with
  | nil => exact absurd (List.prefix_nil.1 cut) missing
  | cons arg args ih =>
    obtain ⟨first, others⟩ := List.forall_mem_cons.1 fits
    rw [List.flatMap_cons] at cut missing
    rcases prefix_append_cases cut with ⟨inside, short⟩ | ⟨r, rfl, rest⟩
    · exact readArgs_bulk_cut _ first inside short
    · have later : r ≠ args.flatMap bulkText := fun same => missing (by rw [same])
      rw [List.length_cons, readArgs_bulk _ _ first, ih others rest later]

/-! ### A round of the loader -/

theorem atoi_eq {s : Bytes} {n : ℕ} (number : strtol s = n) (small : n ≤ INT_MAX) : atoi s = n := by
  rw [atoi, number]
  rw [INT_MAX] at small
  exact Int.bmod_eq_of_le_mul_two (by omega) (by omega)

/-- After the first byte of a length there is another one. -/
theorem second_ne_zero {n : ℕ} {t : Bytes} (marker : UInt8) (rest : Bytes)
    (cut : t <+: decimalText n ++ [13]) (nonempty : t ≠ []) :
    (marker :: (t ++ rest))[1]?.getD 0 ≠ 0 := by
  match t with
  | c :: t =>
    have member := cut.subset List.mem_cons_self
    show c ≠ 0
    rintro rfl
    rcases List.mem_append.1 member with digit | same
    · exact absurd (isDigit_of_mem_decimalText digit) (by decide)
    · exact absurd (List.mem_singleton.1 same) (by decide)

variable {size : ℕ} {loader : AofLoader σ}

/-- After the number of the arguments these are read. -/
theorem loadRound_header {n : ℕ} {rest : Bytes} (positive : 0 < n) (count : n ≤ INT_MAX)
    (memory : 8 * n ≤ server.memory) (text : loader.file = header (ascii '*') n ++ 10 :: rest) :
    loadRound server size loader =
      (readArgs server n rest).bind fun (argv, file) =>
        loadCommand server size loader argv file := by
  have small : n < 2 ^ 63 := count.trans_lt (by decide)
  have number : atoi (decimalText n ++ [13, 10]) = n :=
    atoi_eq (strtol_decimalText small [13, 10] not_isDigit_return) count
  have second := second_ne_zero (ascii '*') [10] (List.prefix_refl (decimalText n ++ [13]))
    (by simp)
  rw [List.append_assoc, List.singleton_append] at second
  rw [INT_MAX] at count
  rw [loadRound, text, fgets_header _ (by decide) small]
  dsimp only
  rw [List.head?_cons, if_neg (by decide), if_neg (not_not.2 rfl), if_neg second, List.drop_one,
    List.tail_cons, number, if_neg (by omega), if_neg (by omega), Int.toNat_natCast,
    if_neg (by omega)]
  cases readArgs server n rest <;> rfl

/-- A complete command is run. -/
theorem loadRound_command {argv : List Bytes} {rest : Bytes} (fits : Fits server argv)
    (text : loader.file = commandText argv ++ rest) :
    loadRound server size loader = loadCommand server size loader argv rest := by
  rw [commandText, List.append_assoc, List.cons_append] at text
  rw [loadRound_header (List.length_pos_of_ne_nil fits.nonempty) fits.count fits.memory text,
    readArgs_text rest fits.lengths]
  rfl

/-- The end of the file inside of a command is noticed. -/
theorem loadRound_cut {argv : List Bytes} (fits : Fits server argv) (nonempty : loader.file ≠ [])
    (cut : loader.file <+: commandText argv) (missing : loader.file ≠ commandText argv) :
    loadRound server size loader = .error .short := by
  have positive := List.length_pos_of_ne_nil fits.nonempty
  rw [commandText] at cut missing
  rcases prefix_line cut with inside | ⟨r, text, rest⟩
  · have small : argv.length < 2 ^ 63 := fits.count.trans_lt (by decide)
    obtain ⟨t, text, digits, line⟩ := fgets_header_cut (by decide) small inside nonempty
    rw [loadRound, line, text]
    dsimp only
    rw [List.head?_cons, if_neg (by decide), if_neg (not_not.2 rfl)]
    by_cases empty : t = []
    · rw [empty]
      rfl
    have second := second_ne_zero (ascii '*') [] digits empty
    rw [List.append_nil] at second
    -- a part of the number of the arguments is a number of arguments, but there are none
    obtain ⟨m, less, number, nonzero⟩ := strtol_cut small digits
    obtain ⟨m, rfl⟩ := Nat.exists_eq_succ_of_ne_zero (nonzero positive.ne' empty)
    have memory := fits.memory
    have count := fits.count
    rw [INT_MAX] at count
    rw [if_neg second, List.drop_one, List.tail_cons, atoi_eq number (less.trans fits.count),
      if_neg (by omega), if_neg (by omega), Int.toNat_natCast, if_neg (by omega)]
    rfl
  · have later : r ≠ argv.flatMap bulkText := fun same => missing (by rw [text, same])
    rw [loadRound_header positive fits.count fits.memory text, readArgs_cut fits.lengths rest later]
    rfl

/-- A line that begins with `#` is skipped. -/
theorem loadRound_skip {line rest : Bytes} (short : line.length < 1023) (clean : 10 ∉ line)
    (mark : line.head? = some (ascii '#')) (text : loader.file = line ++ 10 :: rest) :
    loadRound server size loader = .ok { loader with file := rest } := by
  rw [loadRound, text, fgets_line rest (by rw [AOF_ANNOTATION_LINE_MAX_LEN]; omega) clean]
  dsimp only
  rw [List.head?_append, mark, Option.some_or, if_pos rfl]

theorem loadRound_skip_cut (short : loader.file.length < 1023) (clean : 10 ∉ loader.file)
    (mark : loader.file.head? = some (ascii '#')) :
    loadRound server size loader = .ok { loader with file := [] } := by
  have nonempty : loader.file ≠ [] := by
    intro empty
    rw [empty] at mark
    cases mark
  rw [loadRound, fgets_cut nonempty (by rw [AOF_ANNOTATION_LINE_MAX_LEN]; omega) clean]
  dsimp only
  rw [if_pos mark]

/-! ### Records -/

/-- A record: a line that is skipped, or a command. -/
inductive Record where
  | note (line : Bytes)
  | command (argv : List Bytes)

namespace Record

def text : Record → Bytes
  | note line => line ++ [10]
  | command argv => commandText argv

/-- A record that can be loaded. -/
def Readable (server : AofServer σ) : Record → Prop
  | note line => line.length < 1023 ∧ 10 ∉ line ∧ line.head? = some (ascii '#')
  | command argv => Fits server argv

theorem text_ne_nil (record : Record) : record.text ≠ [] := by
  cases record with
  | note line => exact List.append_ne_nil_of_right_ne_nil _ (List.cons_ne_nil _ _)
  | command argv => nofun

end Record

variable (server size) in
/-- What a complete record does. -/
def loadRecord (loader : AofLoader σ) (record : Record) : Except LoadEnd (AofLoader σ) :=
  let file := loader.file.drop record.text.length
  match record with
  | .note _ => .ok { loader with file }
  | .command argv => loadCommand server size loader argv file

/-- **A complete record is read in one round.** -/
theorem loadRound_text {record : Record} {rest : Bytes} (readable : record.Readable server)
    (text : loader.file = record.text ++ rest) :
    loadRound server size loader = loadRecord server size loader record := by
  have file : loader.file.drop record.text.length = rest := by rw [text, List.drop_left' rfl]
  cases record with
  | note line =>
    dsimp only [loadRecord]
    rw [file]
    refine loadRound_skip readable.1 readable.2.1 readable.2.2 (text.trans ?_)
    rw [Record.text, List.append_assoc, List.singleton_append]
  | command argv =>
    dsimp only [loadRecord]
    rw [file]
    exact loadRound_command readable text

variable (server size) in
/-- The loop ends in this way. -/
def Ends (loader : AofLoader σ) (reason : LoadEnd) (last : AofLoader σ) : Prop :=
  ∀ fuel, loader.file.length < fuel → loadLoop server size fuel loader = some (reason, last)

theorem ends_of_error {reason : LoadEnd} (stops : loadRound server size loader = .error reason) :
    Ends server size loader reason loader := by
  intro fuel enough
  obtain ⟨fuel, rfl⟩ := Nat.exists_eq_succ_of_ne_zero (Nat.ne_zero_of_lt enough)
  rw [loadLoop, stops]

theorem Ends.head {next last : AofLoader σ} {reason : LoadEnd}
    (goes : loadRound server size loader = .ok next)
    (shorter : next.file.length < loader.file.length) (ends : Ends server size next reason last) :
    Ends server size loader reason last := by
  intro fuel enough
  obtain ⟨fuel, rfl⟩ := Nat.exists_eq_succ_of_ne_zero (Nat.ne_zero_of_lt enough)
  rw [loadLoop, goes]
  exact ends fuel (by omega)

theorem ends_nil (empty : loader.file = []) : Ends server size loader .eof loader :=
  ends_of_error (by rw [loadRound, empty]; rfl)

theorem loadRecord_file {record : Record} {next : AofLoader σ}
    (loaded : loadRecord server size loader record = .ok next) :
    next.file = loader.file.drop record.text.length := by
  cases record with
  | note line =>
    cases loaded
    rfl
  | command argv =>
    dsimp only [loadRecord, loadCommand] at loaded
    split at loaded
    · cases loaded
    · split at loaded
      · cases loaded
      · cases loaded
        rfl

/-- The records at the beginning of the file are loaded one by one. -/
theorem Ends.records {records : List Record} {rest : Bytes} {next last : AofLoader σ}
    {reason : LoadEnd} (readable : ∀ record ∈ records, record.Readable server)
    (text : loader.file = records.flatMap Record.text ++ rest)
    (loaded : records.foldlM (loadRecord server size) loader = .ok next)
    (ends : Ends server size next reason last) : Ends server size loader reason last := by
  induction records generalizing loader with
  | nil =>
    cases loaded
    exact ends
  | cons record records ih =>
    obtain ⟨first, others⟩ := List.forall_mem_cons.1 readable
    rw [List.flatMap_cons, List.append_assoc] at text
    rw [List.foldlM_cons] at loaded
    cases step : loadRecord server size loader record with
    | error reason =>
      rw [step] at loaded
      cases loaded
    | ok middle =>
      rw [step] at loaded
      have file := loadRecord_file step
      refine Ends.head ((loadRound_text first text).trans step) ?_ (ih others ?_ loaded)
      · have positive := List.length_pos_of_ne_nil record.text_ne_nil
        rw [file, text, List.length_drop, List.length_append]
        omega
      · rw [file, text, List.drop_left' rfl]

end CodeNotes.RedisServer
