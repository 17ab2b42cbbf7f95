import Mathlib.Data.List.TakeWhile
import CodeNotes.Lib.MachineInt
import CodeNotes.Redis.Store

/-!
# Quoted arguments

`sdssplitargs` of `sds.c` splits a line into arguments the way a shell does: it is what an inline
request, the configuration file and the manifest of the append only file are read with.
`sdscatrepr` writes a byte string as one quoted argument.  What is written is read back: a line of
quoted arguments is split into exactly these, whatever bytes they have (`sdssplitargs_line`).
-/

namespace CodeNotes.RedisServer

open Redis

/-- The byte of an ASCII character. -/
def ascii (c : Char) : UInt8 := UInt8.ofNat c.toNat

/-- `isspace`. -/
def isSpace (c : UInt8) : Prop := c = 32 ∨ 9 ≤ c ∧ c ≤ 13

instance (c : UInt8) : Decidable (isSpace c) := inferInstanceAs (Decidable (_ ∨ _))

/-- `isprint`. -/
def isPrint (c : UInt8) : Prop := 32 ≤ c ∧ c ≤ 126

instance (c : UInt8) : Decidable (isPrint c) := inferInstanceAs (Decidable (_ ∧ _))

/-- `is_hex_digit`. -/
def isHexDigit (c : UInt8) : Prop :=
  ascii '0' ≤ c ∧ c ≤ ascii '9' ∨ ascii 'a' ≤ c ∧ c ≤ ascii 'f' ∨ ascii 'A' ≤ c ∧ c ≤ ascii 'F'

instance (c : UInt8) : Decidable (isHexDigit c) := inferInstanceAs (Decidable (_ ∨ _ ∨ _))

/-- `hex_digit_to_int`. -/
def hexDigitToInt (c : UInt8) : UInt8 :=
  if ascii '0' ≤ c ∧ c ≤ ascii '9' then c - ascii '0'
  else if ascii 'a' ≤ c ∧ c ≤ ascii 'f' then c - ascii 'a' + 10
  else if ascii 'A' ≤ c ∧ c ≤ ascii 'F' then c - ascii 'A' + 10
  else 0

/-- The character after a backslash, if it is not the `x` of a byte. -/
def unescaped (c : UInt8) : UInt8 :=
  if c = ascii 'n' then 10
  else if c = ascii 'r' then 13
  else if c = ascii 't' then 9
  else if c = ascii 'b' then 8
  else if c = ascii 'a' then 7
  else c

/-- A closing quote has to be followed by a space or by nothing at all. -/
def closed (current : Bytes) : Bytes → Option (Bytes × Bytes)
  | [] => some (current, [])
  | c :: p => if isSpace c then some (current, c :: p) else none

/-- The token inside `"quotes"`, up to the closing one. -/
def doubleQuoted (current : Bytes) : Bytes → Option (Bytes × Bytes)
  | [] => none
  | c :: p =>
    if c = ascii '\\' then
      match p with
      | [] => doubleQuoted (current ++ [c]) []
      | e :: a :: b :: p =>
        if e = ascii 'x' ∧ isHexDigit a ∧ isHexDigit b then
          doubleQuoted (current ++ [hexDigitToInt a * 16 + hexDigitToInt b]) p
        else doubleQuoted (current ++ [unescaped e]) (a :: b :: p)
      -- no room for the two digits
      | [e, a] => doubleQuoted (current ++ [unescaped e]) [a]
      | [e] => doubleQuoted (current ++ [unescaped e]) []
    else if c = ascii '"' then closed current p
    else doubleQuoted (current ++ [c]) p

/-- The token inside `'single quotes'`, up to the closing one. -/
def singleQuoted (current : Bytes) : Bytes → Option (Bytes × Bytes)
  | [] => none
  | c :: p =>
    if c = ascii '\'' then closed current p
    else
      match p with
      | [] => singleQuoted (current ++ [c]) []
      | e :: p =>
        if c = ascii '\\' ∧ e = ascii '\'' then singleQuoted (current ++ [e]) p
        else singleQuoted (current ++ [c]) (e :: p)

/-- The loop over the characters of a token: the token and the rest of the line, or `none` for the
`goto err`. -/
def token (current : Bytes) : Bytes → Option (Bytes × Bytes)
  | [] => some (current, [])
  | c :: p =>
    if c = 32 ∨ c = 10 ∨ c = 13 ∨ c = 9 then some (current, p)
    else if c = ascii '"' then doubleQuoted current p
    else if c = ascii '\'' then singleQuoted current p
    else token (current ++ [c]) p

/-- The loop over the tokens, of which each takes a character at least. -/
def splitLoop : ℕ → Bytes → List Bytes → Option (List Bytes)
  | 0, _, _ => none
  | fuel + 1, p, vector =>
    match p.dropWhile fun c => isSpace c with
    | [] => some vector
    | c :: p => (token [] (c :: p)).bind fun (current, p) => splitLoop fuel p (vector ++ [current])

/-- `sdssplitargs` of a C string, which ends at its first zero. -/
def sdssplitargs (line : Bytes) : Option (List Bytes) :=
  let p := line.takeWhile fun c => c ≠ 0
  splitLoop (p.length + 1) p []

/-- `%02x`. -/
def hexDigits (c : UInt8) : Bytes :=
  let digit (d : UInt8) : UInt8 := if d < 10 then ascii '0' + d else ascii 'a' + (d - 10)
  [digit (c / 16), digit (c % 16)]

/-- The body of the loop of `sdscatrepr`. -/
def reprByte (c : UInt8) : Bytes :=
  if c = ascii '\\' ∨ c = ascii '"' then [ascii '\\', c]
  else if c = 10 then [ascii '\\', ascii 'n']
  else if c = 13 then [ascii '\\', ascii 'r']
  else if c = 9 then [ascii '\\', ascii 't']
  else if c = 7 then [ascii '\\', ascii 'a']
  else if c = 8 then [ascii '\\', ascii 'b']
  else if isPrint c then [c]
  else ascii '\\' :: ascii 'x' :: hexDigits c

/-- What `sdscatrepr` appends. -/
def sdscatrepr (p : Bytes) : Bytes := ascii '"' :: p.flatMap reprByte ++ [ascii '"']

/-! ### The loop over the tokens ends -/

theorem closed_length {current p t rest : Bytes} (done : closed current p = some (t, rest)) :
    rest.length ≤ p.length := by
  unfold closed at done
  split at done
  · simp_all
  · split_ifs at done
    simp_all

theorem doubleQuoted_length {p current t rest : Bytes}
    (done : doubleQuoted current p = some (t, rest)) : rest.length ≤ p.length := by
  fun_induction doubleQuoted current p with
  | case1 => cases done
  | case2 => simp_all
  | case3 => simp_all; omega
  | case4 => simp_all; omega
  | case5 => simp_all; omega
  | case6 => simp_all
  | case7 => exact (closed_length done).trans (Nat.le_succ _)
  | case8 => simp_all; omega

theorem singleQuoted_length {p current t rest : Bytes}
    (done : singleQuoted current p = some (t, rest)) : rest.length ≤ p.length := by
  fun_induction singleQuoted current p with
  | case1 => cases done
  | case2 => exact (closed_length done).trans (Nat.le_succ _)
  | case3 => simp_all
  | case4 _ _ _ _ _ _ ih =>
    have shorter := ih done
    simp only [List.length_cons]
    omega
  | case5 _ _ _ _ _ _ ih => exact (ih done).trans (Nat.le_succ _)

theorem token_length {p current t rest : Bytes} (done : token current p = some (t, rest)) :
    rest.length ≤ p.length := by
  fun_induction token current p with
  | case1 => simp_all
  | case2 => simp_all
  | case3 => exact (doubleQuoted_length done).trans (Nat.le_succ _)
  | case4 => exact (singleQuoted_length done).trans (Nat.le_succ _)
  | case5 => simp_all; omega

/-- A token that begins with a character that is not a space takes that character. -/
theorem token_cons_length {c : UInt8} {p t rest : Bytes} (visible : ¬ isSpace c)
    (done : token [] (c :: p) = some (t, rest)) : rest.length ≤ p.length := by
  have separator : ¬ (c = 32 ∨ c = 10 ∨ c = 13 ∨ c = 9) := by
    rintro (rfl | rfl | rfl | rfl) <;> exact visible (by decide)
  rw [token, if_neg separator] at done
  split_ifs at done
  · exact doubleQuoted_length done
  · exact singleQuoted_length done
  · exact token_length done

/-- The fuel is enough: any more of it splits the line in the same way. -/
theorem splitLoop_fuel {fuel fuel' : ℕ} {p : Bytes} (vector : List Bytes) (enough : p.length < fuel)
    (enough' : p.length < fuel') : splitLoop fuel p vector = splitLoop fuel' p vector := by
  induction fuel generalizing fuel' p vector with
  | zero => exact absurd enough (Nat.not_lt_zero _)
  | succ fuel ih =>
    obtain ⟨fuel', rfl⟩ := Nat.exists_eq_succ_of_ne_zero (Nat.ne_zero_of_lt enough')
    rw [splitLoop, splitLoop]
    have shorter := (List.dropWhile_sublist (l := p) fun c => isSpace c).length_le
    have visible := List.head?_dropWhile_not (fun c => decide (isSpace c)) p
    cases start : p.dropWhile fun c => isSpace c with
    | nil => rfl
    | cons c q =>
      rw [start] at shorter visible
      rw [List.length_cons] at shorter
      refine Option.bind_congr fun ⟨current, rest⟩ done => ?_
      have taken := token_cons_length (by simpa using visible) done
      exact ih _ (by omega) (by omega)

/-! ### Quoted arguments are read back -/

theorem doubleQuoted_plain {c : UInt8} (current p : Bytes)
    (plain : c ≠ ascii '\\' ∧ c ≠ ascii '"') :
    doubleQuoted current (c :: p) = doubleQuoted (current ++ [c]) p := by
  conv_lhs => unfold doubleQuoted
  rw [if_neg plain.1, if_neg plain.2]

theorem doubleQuoted_escape {e : UInt8} (current p : Bytes) (letter : e ≠ ascii 'x') :
    doubleQuoted current (ascii '\\' :: e :: p) = doubleQuoted (current ++ [unescaped e]) p := by
  match p with
  | [] => rfl
  | [_] => rfl
  | _ :: _ :: _ => rw [doubleQuoted, if_pos rfl, if_neg fun byte => letter byte.1]

/-- The two digits that are written for a byte. -/
theorem hexDigits_spec (c : UInt8) : ∃ a b, hexDigits c = [a, b] ∧ isHexDigit a ∧ isHexDigit b ∧
    hexDigitToInt a * 16 + hexDigitToInt b = c := by
  have digits := MachineInt.forall_octet (p := fun c => (hexDigits c).all (fun d => isHexDigit d) ∧
    (hexDigits c).foldl (fun v d => v * 16 + hexDigitToInt d) 0 = c) (by decide +kernel) c
  refine ⟨_, _, rfl, ?_⟩
  simpa [hexDigits, and_assoc] using digits

/-- What `sdscatrepr` writes for a byte is read as this byte. -/
theorem doubleQuoted_reprByte (current p : Bytes) (c : UInt8) :
    doubleQuoted current (reprByte c ++ p) = doubleQuoted (current ++ [c]) p := by
  rw [reprByte]
  split_ifs with special newline carriage tab alarm back printed
  · rcases special with rfl | rfl
    · exact doubleQuoted_escape current p (by decide)
    · exact doubleQuoted_escape current p (by decide)
  · rw [newline]
    exact doubleQuoted_escape current p (by decide)
  · rw [carriage]
    exact doubleQuoted_escape current p (by decide)
  · rw [tab]
    exact doubleQuoted_escape current p (by decide)
  · rw [alarm]
    exact doubleQuoted_escape current p (by decide)
  · rw [back]
    exact doubleQuoted_escape current p (by decide)
  · exact doubleQuoted_plain current p (not_or.1 special)
  · obtain ⟨a, b, digits, first, second, same⟩ := hexDigits_spec c
    rw [digits]
    show doubleQuoted current (ascii '\\' :: ascii 'x' :: a :: b :: p) = _
    rw [doubleQuoted, if_pos rfl, if_pos ⟨rfl, first, second⟩, same]

theorem doubleQuoted_repr (current s p : Bytes) :
    doubleQuoted current (s.flatMap reprByte ++ ascii '"' :: p) = closed (current ++ s) p := by
  induction s generalizing current with
  | nil =>
    rw [List.flatMap_nil, List.nil_append, List.append_nil]
    unfold doubleQuoted
    rw [if_neg (by decide), if_pos rfl]
  | cons c s ih =>
    rw [List.flatMap_cons, List.append_assoc, doubleQuoted_reprByte, ih, List.append_assoc]
    rfl

theorem token_sdscatrepr (s p : Bytes) : token [] (sdscatrepr s ++ p) = closed s p := by
  rw [sdscatrepr, List.append_assoc, List.cons_append, token, if_neg (by decide), if_pos rfl]
  exact doubleQuoted_repr [] s p

theorem zero_notMem_reprByte (c : UInt8) : 0 ∉ reprByte c :=
  MachineInt.forall_octet (p := fun c => 0 ∉ reprByte c) (by decide +kernel) c

/-- The arguments with a space in front of each. -/
def spaced (args : List Bytes) : Bytes := args.flatMap fun arg => 32 :: sdscatrepr arg

theorem splitLoop_spaced (args : List Bytes) (vector : List Bytes) {fuel : ℕ}
    (enough : args.length < fuel) :
    splitLoop fuel (spaced args) vector = some (vector ++ args) := by
  induction args generalizing fuel vector with
  | nil =>
    obtain ⟨fuel, rfl⟩ := Nat.exists_eq_succ_of_ne_zero (Nat.ne_zero_of_lt enough)
    rw [List.append_nil]
    rfl
  | cons arg args ih =>
    obtain ⟨fuel, rfl⟩ := Nat.exists_eq_succ_of_ne_zero (Nat.ne_zero_of_lt enough)
    have start : (spaced (arg :: args)).dropWhile (fun c => isSpace c) =
        sdscatrepr arg ++ spaced args := rfl
    have more : closed arg (spaced args) = some (arg, spaced args) := by
      cases args <;> rfl
    rw [splitLoop, start]
    show (token [] (sdscatrepr arg ++ spaced args)).bind _ = _
    rw [token_sdscatrepr, more, Option.bind_some]
    dsimp only
    rw [ih _ (Nat.lt_of_succ_lt_succ enough), List.append_assoc]
    rfl

theorem intercalate_sdscatrepr (arg : Bytes) (args : List Bytes) :
    [32].intercalate ((arg :: args).map sdscatrepr) = sdscatrepr arg ++ spaced args := by
  induction args generalizing arg with
  | nil => simp [List.intercalate, spaced]
  | cons next args ih =>
    rw [List.map_cons, List.map_cons, List.intercalate_cons_cons, ← List.map_cons, ih,
      List.append_assoc]
    rfl

theorem ne_zero_of_mem_sdscatrepr {s : Bytes} {b : UInt8} (member : b ∈ sdscatrepr s) : b ≠ 0 := by
  rw [sdscatrepr, List.mem_append, List.mem_cons, List.mem_flatMap, List.mem_singleton] at member
  rcases member with (rfl | ⟨c, -, inside⟩) | rfl
  · decide
  · rintro rfl
    exact zero_notMem_reprByte c inside
  · decide

theorem ne_zero_of_mem_spaced {args : List Bytes} {b : UInt8} (member : b ∈ spaced args) :
    b ≠ 0 := by
  obtain ⟨arg, -, inside⟩ := List.mem_flatMap.1 member
  rcases List.mem_cons.1 inside with rfl | inside
  · decide
  · exact ne_zero_of_mem_sdscatrepr inside

theorem length_le_length_spaced (args : List Bytes) : args.length ≤ (spaced args).length := by
  induction args with
  | nil => exact Nat.zero_le _
  | cons arg args ih =>
    rw [spaced, List.flatMap_cons, List.cons_append, List.length_cons, List.length_cons,
      List.length_append]
    exact Nat.succ_le_succ (ih.trans (Nat.le_add_left _ _))

/-- **A line of quoted arguments is split into the arguments.** -/
theorem sdssplitargs_line (args : List Bytes) :
    sdssplitargs ([32].intercalate (args.map sdscatrepr)) = some args := by
  cases args with
  | nil => rfl
  | cons arg args =>
    have whole : (sdscatrepr arg ++ spaced args).takeWhile (fun c => c ≠ 0) =
        sdscatrepr arg ++ spaced args := by
      rw [List.takeWhile_eq_self_iff]
      intro b member
      rcases List.mem_append.1 member with inside | inside
      · exact decide_eq_true (ne_zero_of_mem_sdscatrepr inside)
      · exact decide_eq_true (ne_zero_of_mem_spaced inside)
    have enough : (arg :: args).length < (sdscatrepr arg ++ spaced args).length + 1 := by
      have rest := length_le_length_spaced args
      rw [sdscatrepr, List.length_append, List.cons_append, List.length_cons, List.length_cons]
      omega
    rw [intercalate_sdscatrepr, sdssplitargs, whole]
    exact splitLoop_spaced (arg :: args) [] enough

end CodeNotes.RedisServer
