import Mathlib.Data.List.DropRight
import CodeNotes.Lib.Percent

/-!
# The path of a URL

`parsePath` reads the text after the origin of an `http` URL as the URL standard does: white space
at the end, tabs and newlines are dropped, the path ends at `?` or `#`, `\` counts as `/`, and dot
segments are resolved.  Each of these can only shorten the text (`parsedText_sublist`,
`resolve_size`, `size_joinPath_splitOnP`); `requestPath` is what a Go server gets to see.
-/

namespace CodeNotes.Url

open Codec Utf8

def isSlash (c : Char) : Bool := c = '/' || c = '\\'

/-- The text of the path, cut out of the text after the origin. -/
def parsedText (input : List Char) : List Char :=
  ((input.rdropWhile fun c => c.toNat ≤ 0x20).filter fun c => c ∉ ['\t', '\n', '\r']).takeWhile
    fun c => c ∉ ['?', '#']

def isSingleDot (segment : List Char) : Bool :=
  segment.map Char.toLower ∈ [".".toList, "%2e".toList]

def isDoubleDot (segment : List Char) : Bool :=
  segment.map Char.toLower ∈ ["..".toList, ".%2e".toList, "%2e.".toList, "%2e%2e".toList]

/-- The path after the segments; a dot segment at the end leaves an empty one. -/
def resolve : List (List Char) → List (List Char) → List (List Char)
  | path, [] => path
  | path, [last] =>
    if isDoubleDot last then path.dropLast ++ [[]]
    else if isSingleDot last then path ++ [[]]
    else path ++ [last]
  | path, segment :: rest =>
    if isDoubleDot segment then resolve path.dropLast rest
    else if isSingleDot segment then resolve path rest
    else resolve (path ++ [segment]) rest

def dropSlash : List Char → List Char
  | [] => []
  | c :: text => if isSlash c then text else c :: text

def parsePath (input : List Char) : List (List Char) :=
  resolve [] ((dropSlash (parsedText input)).splitOnP isSlash)

/-- A path as text, each segment after a slash. -/
def joinPath (path : List (List Char)) : List Char := encode ('/' :: ·) path

/-- The path a Go server decodes from a request for the URL, unless its escapes are malformed. -/
def requestPath (input : List Char) : Option (List UInt8) :=
  unescape (encodePath (joinPath (parsePath input)))

/-! ### Sizes -/

/-- The bytes of a text. -/
def size (text : List Char) : ℕ := (utf8 text).length

@[simp] theorem size_nil : size [] = 0 := rfl

theorem size_cons (c : Char) (text : List Char) :
    size (c :: text) = (String.utf8EncodeChar c).length + size text := by
  rw [size, utf8_cons, List.length_append, size]

theorem size_append (text text' : List Char) : size (text ++ text') = size text + size text' := by
  rw [size, utf8_append, List.length_append, size, size]

theorem size_pos {text : List Char} (nonempty : text ≠ []) : 0 < size text :=
  List.length_pos_of_ne_nil fun nil => nonempty (utf8_eq_nil_iff.1 nil)

/-- Leaving characters out makes a text shorter. -/
theorem eq_or_size_lt_of_sublist {text text' : List Char} (sublist : text.Sublist text') :
    text = text' ∨ size text < size text' := by
  induction sublist with
  | slnil => exact Or.inl rfl
  | @cons text text' c _ ih =>
    have positive : 0 < (String.utf8EncodeChar c).length :=
      List.length_pos_of_ne_nil String.utf8EncodeChar_ne_nil
    rw [size_cons]
    rcases ih with rfl | shorter
    · exact Or.inr (by omega)
    · exact Or.inr (by omega)
  | @cons_cons text text' c _ ih =>
    rw [size_cons, size_cons]
    rcases ih with rfl | shorter
    · exact Or.inl rfl
    · exact Or.inr (by omega)

theorem parsedText_sublist (input : List Char) : (parsedText input).Sublist input :=
  (List.takeWhile_sublist _).trans
    (List.filter_sublist.trans (List.rdropWhile_prefix _ input).sublist)

theorem size_joinPath_cons (segment : List Char) (path : List (List Char)) :
    size (joinPath (segment :: path)) = 1 + size segment + size (joinPath path) := by
  rw [joinPath, encode_cons, size_append, size_cons]
  rfl

theorem joinPath_append (path path' : List (List Char)) :
    joinPath (path ++ path') = joinPath path ++ joinPath path' := encode_append _ path path'

theorem size_joinPath_dropLast (path : List (List Char)) :
    size (joinPath path.dropLast) ≤ size (joinPath path) := by
  rcases List.eq_nil_or_concat path with rfl | ⟨init, last, rfl⟩
  · exact le_rfl
  · rw [List.concat_eq_append, List.dropLast_concat, joinPath_append, size_append]
    omega

/-- Neither `.` nor `..` in any spelling. -/
def NoDot (segment : List Char) : Prop := isSingleDot segment = false ∧ isDoubleDot segment = false

theorem resolve_of_noDot {path segments : List (List Char)} (noDots : ∀ s ∈ segments, NoDot s) :
    resolve path segments = path ++ segments := by
  fun_induction resolve path segments with
  | case1 path => simp
  | case2 path last double => simp [(noDots last (List.mem_cons_self ..)).2] at double
  | case3 path last _ single => simp [(noDots last (List.mem_cons_self ..)).1] at single
  | case4 => rfl
  | case5 path segment rest _ double => simp [(noDots segment (List.mem_cons_self ..)).2] at double
  | case6 path segment rest _ _ single =>
    simp [(noDots segment (List.mem_cons_self ..)).1] at single
  | case7 path segment rest _ _ _ ih =>
    rw [ih fun s mem => noDots s (List.mem_cons_of_mem _ mem), List.append_assoc]
    rfl

/-- A dot segment makes the path shorter. -/
theorem resolve_size (path segments : List (List Char)) :
    (∀ s ∈ segments, NoDot s) ∨
      size (joinPath (resolve path segments)) <
        size (joinPath path) + size (joinPath segments) := by
  fun_induction resolve path segments with
  | case1 path => exact Or.inl (by simp)
  | case2 path last double =>
    have dropped := size_joinPath_dropLast path
    have nonempty : 0 < size last := size_pos (by rintro rfl; exact absurd double (by decide))
    right
    rw [joinPath_append, size_append, size_joinPath_cons, size_joinPath_cons, size_nil]
    omega
  | case3 path last double single =>
    have nonempty : 0 < size last := size_pos (by rintro rfl; exact absurd single (by decide))
    right
    rw [joinPath_append, size_append, size_joinPath_cons, size_joinPath_cons, size_nil]
    omega
  | case4 path last double single =>
    left
    intro s mem
    rw [List.mem_singleton.1 mem]
    exact ⟨by simpa using single, by simpa using double⟩
  | case5 path segment rest _ double ih =>
    have dropped := size_joinPath_dropLast path
    right
    rw [size_joinPath_cons]
    rcases ih with noDots | shorter
    · rw [resolve_of_noDot noDots, joinPath_append, size_append]
      omega
    · omega
  | case6 path segment rest _ double single ih =>
    right
    rw [size_joinPath_cons]
    rcases ih with noDots | shorter
    · rw [resolve_of_noDot noDots, joinPath_append, size_append]
      omega
    · omega
  | case7 path segment rest _ double single ih =>
    rcases ih with noDots | shorter
    · left
      intro s mem
      rcases List.mem_cons.1 mem with rfl | mem
      · exact ⟨by simpa using single, by simpa using double⟩
      · exact noDots s mem
    · right
      rw [joinPath_append, size_append, size_joinPath_cons] at shorter
      rw [size_joinPath_cons]
      simp only [joinPath, encode_nil, size_nil] at shorter ⊢
      omega

/-! ### Segments -/

def unifySlash (c : Char) : Char := if isSlash c then '/' else c

/-- Splitting and joining again only turns every slash into `/`. -/
theorem joinPath_splitOnP (text : List Char) :
    joinPath (text.splitOnP isSlash) = '/' :: text.map unifySlash := by
  induction text with
  | nil => rfl
  | cons c text ih =>
    rw [List.splitOnP_cons_eq_if_modifyHead]
    split_ifs with slash
    · rw [joinPath, encode_cons, ← joinPath, ih]
      simp [unifySlash, slash]
    · cases split : text.splitOnP isSlash with
      | nil => exact absurd split (List.splitOnP_ne_nil _ _)
      | cons segment rest =>
        rw [split, joinPath, encode_cons, ← joinPath] at ih
        simp only [List.cons_append, List.cons.injEq, true_and] at ih
        rw [List.modifyHead_cons, joinPath, encode_cons, ← joinPath]
        simp [unifySlash, slash, ih]

theorem size_map_unifySlash (text : List Char) : size (text.map unifySlash) = size text := by
  induction text with
  | nil => rfl
  | cons c text ih =>
    have same : (String.utf8EncodeChar (unifySlash c)).length =
        (String.utf8EncodeChar c).length := by
      unfold unifySlash
      split_ifs with slash
      · simp only [isSlash, Bool.or_eq_true, decide_eq_true_eq] at slash
        rcases slash with rfl | rfl <;> rfl
      · rfl
    rw [List.map_cons, size_cons, size_cons, same, ih]

theorem not_of_mem_splitOnP {α : Type*} {p : α → Bool} {l s : List α} (mem : s ∈ l.splitOnP p) :
    ∀ x ∈ s, p x = false := by
  induction l generalizing s with
  | nil =>
    rw [List.splitOnP_nil, List.mem_singleton] at mem
    simp [mem]
  | cons a l ih =>
    rw [List.splitOnP_cons_eq_if_modifyHead] at mem
    split_ifs at mem with sep
    · rcases List.mem_cons.1 mem with rfl | mem
      · simp
      · exact ih mem
    · cases split : l.splitOnP p with
      | nil => exact absurd split (List.splitOnP_ne_nil _ _)
      | cons head rest =>
        rw [split] at ih
        rw [split, List.modifyHead_cons] at mem
        rcases List.mem_cons.1 mem with rfl | mem
        · intro x hx
          rcases List.mem_cons.1 hx with rfl | hx
          · simpa using sep
          · exact ih (List.mem_cons_self ..) x hx
        · exact ih (List.mem_cons_of_mem _ mem)

/-! ### A plain beginning -/

theorem rdropWhile_append {α : Type*} {p : α → Bool} {l : List α} (plain : ∀ x ∈ l, p x = false)
    (l' : List α) : (l ++ l').rdropWhile p = l ++ l'.rdropWhile p := by
  induction l' using List.reverseRecOn with
  | nil =>
    rw [List.append_nil, List.rdropWhile_nil, List.append_nil, List.rdropWhile_eq_self_iff]
    intro nonempty
    rw [plain _ (List.getLast_mem nonempty)]
    exact Bool.false_ne_true
  | append_singleton l' x ih =>
    rw [← List.append_assoc, List.rdropWhile_concat, List.rdropWhile_concat]
    split_ifs
    · exact ih
    · rw [List.append_assoc]

theorem parsedText_append (pre : List Char)
    (plain : ∀ c ∈ pre, 0x20 < c.toNat ∧ c ∉ ['?', '#']) (text : List Char) :
    parsedText (pre ++ text) = pre ++ parsedText text := by
  have kept : ∀ c ∈ pre, decide (c ∉ ['\t', '\n', '\r']) = true := by
    intro c hc
    have visible := (plain c hc).1
    rw [decide_eq_true_eq]
    rintro white
    simp only [List.mem_cons, List.not_mem_nil, or_false] at white
    rcases white with rfl | rfl | rfl <;> exact absurd visible (by decide)
  rw [parsedText, rdropWhile_append (fun c hc => by simpa using (plain c hc).1), List.filter_append,
    List.filter_eq_self.2 kept,
    List.takeWhile_append_of_pos fun c hc => decide_eq_true (plain c hc).2]
  rfl

/-! ### Paths that come through unchanged -/

theorem parsedText_eq_iff {text : List Char} :
    parsedText text = text ↔
      (∀ c ∈ text, c ∉ ['\t', '\n', '\r'] ∧ c ∉ ['?', '#']) ∧
        ∀ c ∈ text.getLast?, 0x20 < c.toNat := by
  constructor
  · intro uncut
    -- Each stage leaves a sublist of the one before, so none leaves out anything.
    unfold parsedText at uncut
    set trimmed := text.rdropWhile fun c => decide (c.toNat ≤ 0x20) with htrimmed
    set filtered := trimmed.filter fun c => decide (c ∉ ['\t', '\n', '\r']) with hfiltered
    have trims : trimmed.Sublist text := (List.rdropWhile_prefix _ text).sublist
    have filters : filtered.Sublist trimmed := List.filter_sublist
    have takes : text.Sublist filtered := by
      rw [← uncut]
      exact List.takeWhile_sublist _
    have all : trimmed = text := trims.antisymm (takes.trans filters)
    have kept : filtered = text := (filters.trans trims).antisymm takes
    rw [kept, List.takeWhile_eq_self_iff] at uncut
    rw [hfiltered, all, List.filter_eq_self] at kept
    rw [htrimmed, List.rdropWhile_eq_self_iff] at all
    refine ⟨fun c hc => ⟨of_decide_eq_true (kept c hc), of_decide_eq_true (uncut c hc)⟩, ?_⟩
    intro c hc
    obtain ⟨nonempty, rfl⟩ := List.mem_getLast?_eq_getLast hc
    simpa using all nonempty
  · rintro ⟨plain, last⟩
    have untrimmed : text.rdropWhile (fun c => c.toNat ≤ 0x20) = text := by
      rw [List.rdropWhile_eq_self_iff]
      intro nonempty
      have visible := last _ (List.getLast?_eq_getLast_of_ne_nil nonempty)
      simpa using visible
    rw [parsedText, untrimmed, List.filter_eq_self.2 fun c hc => decide_eq_true (plain c hc).1,
      List.takeWhile_eq_self_iff.2 fun c hc => decide_eq_true (plain c hc).2]

theorem eq_of_toLower_eq {c d : Char} (small : d.toNat < 0x41) (lower : c.toLower = d) : c = d := by
  unfold Char.toLower at lower
  split at lower
  next upper =>
    -- A letter stays a letter.
    exfalso
    subst lower
    have low : 65 ≤ c.val.toNat := UInt32.le_iff_toNat_le.1 upper.1
    have high : c.val.toNat ≤ 90 := UInt32.le_iff_toNat_le.1 upper.2
    have shift : ('a'.val - 'A'.val).toNat = 32 := rfl
    change (c.val + ('a'.val - 'A'.val)).toNat < 0x41 at small
    rw [UInt32.toNat_add, shift] at small
    omega
  next => exact lower

theorem map_toLower_eq_dots_iff (segment : List Char) (n : ℕ) :
    segment.map Char.toLower = List.replicate n '.' ↔ segment = List.replicate n '.' := by
  rw [List.eq_replicate_iff, List.eq_replicate_iff, List.length_map, List.forall_mem_map]
  refine and_congr_right fun _ => forall₂_congr fun c _ => ?_
  refine ⟨eq_of_toLower_eq (by decide), ?_⟩
  rintro rfl
  decide

/-- Without escapes the dot segments are spelled with dots. -/
theorem noDot_iff {segment : List Char} (noPercent : '%' ∉ segment) :
    NoDot segment ↔ segment ≠ ['.'] ∧ segment ≠ ['.', '.'] := by
  have noEscape : '%' ∉ segment.map Char.toLower := by
    intro mem
    obtain ⟨c, hc, percent⟩ := List.mem_map.1 mem
    exact noPercent (eq_of_toLower_eq (by decide) percent ▸ hc)
  have spelled : ∀ dots : List Char, '%' ∈ dots → segment.map Char.toLower ≠ dots := by
    rintro dots escape rfl
    exact noEscape escape
  have single : segment.map Char.toLower = ".".toList ↔ segment = ['.'] :=
    map_toLower_eq_dots_iff segment 1
  have double : segment.map Char.toLower = "..".toList ↔ segment = ['.', '.'] :=
    map_toLower_eq_dots_iff segment 2
  simp only [NoDot, isSingleDot, isDoubleDot, decide_eq_false_iff_not, List.mem_cons,
    List.not_mem_nil, or_false, not_or, single, double]
  constructor
  · rintro ⟨⟨one, -⟩, two, -⟩
    exact ⟨one, two⟩
  · rintro ⟨one, two⟩
    exact ⟨⟨one, spelled _ (by decide)⟩, two, spelled _ (by decide), spelled _ (by decide),
      spelled _ (by decide)⟩

theorem requestPath_slash (text : List Char) :
    requestPath ('/' :: text) =
      unescape (encodePath (joinPath (resolve [] ((parsedText text).splitOnP isSlash)))) := by
  have cut : parsedText ('/' :: text) = '/' :: parsedText text :=
    parsedText_append ['/'] (List.forall_mem_singleton.2 (by decide)) text
  rw [requestPath, parsePath, cut]
  rfl

theorem unifySlash_eq_iff {c : Char} : unifySlash c = c ↔ c ≠ '\\' := by
  unfold unifySlash
  split_ifs with slash
  · simp only [isSlash, Bool.or_eq_true, decide_eq_true_eq] at slash
    rcases slash with rfl | rfl <;> decide
  · refine ⟨fun _ => ?_, fun _ => rfl⟩
    rintro rfl
    exact slash rfl

theorem map_unifySlash_eq_iff {text : List Char} : text.map unifySlash = text ↔ '\\' ∉ text := by
  induction text with
  | nil => simp
  | cons c text ih =>
    rw [List.map_cons, List.cons.injEq, unifySlash_eq_iff, ih, List.mem_cons, not_or]
    exact and_congr_left' ne_comm

/-- The server sees the path as it was written exactly if nothing of it is cut off, a dot segment,
an escape or a backslash. -/
theorem requestPath_eq_iff (text : List Char) :
    requestPath ('/' :: text) = some (utf8 ('/' :: text)) ↔
      parsedText text = text ∧ (∀ s ∈ text.splitOnP isSlash, NoDot s) ∧
        '%' ∉ text ∧ '\\' ∉ text := by
  rw [requestPath_slash]
  constructor
  · intro seen
    have size_input : size ('/' :: text) = 1 + size text := size_cons '/' text
    have size_segments : size (joinPath ((parsedText text).splitOnP isSlash)) =
        1 + size (parsedText text) := by
      rw [joinPath_splitOnP, size_cons, size_map_unifySlash]
      rfl
    have none_yet : size (joinPath []) = 0 := rfl
    have escapes := length_unescape_encodePath seen
    rw [← size, ← size] at escapes
    -- No stage makes the path longer, so none makes it shorter.
    have cut := eq_or_size_lt_of_sublist (parsedText_sublist text)
    rcases resolve_size [] ((parsedText text).splitOnP isSlash) with noDots | shorter
    · rw [resolve_of_noDot noDots, List.nil_append] at seen escapes
      have uncut : parsedText text = text := cut.resolve_right (by omega)
      rw [uncut] at noDots seen escapes size_segments
      have noPercent : '%' ∉ joinPath (text.splitOnP isSlash) := List.count_eq_zero.1 (by omega)
      rw [unescape_encodePath noPercent, Option.some.injEq] at seen
      have same := utf8_injective seen
      rw [same] at noPercent
      rw [joinPath_splitOnP, List.cons.injEq, map_unifySlash_eq_iff] at same
      exact ⟨uncut, noDots, fun mem => noPercent (List.mem_cons_of_mem _ mem), same.2⟩
    · rcases cut with same | short
      · rw [same] at shorter size_segments escapes
        omega
      · omega
  · rintro ⟨uncut, noDots, noPercent, noBackslash⟩
    have same : joinPath (text.splitOnP isSlash) = '/' :: text := by
      rw [joinPath_splitOnP, map_unifySlash_eq_iff.2 noBackslash]
    rw [uncut, resolve_of_noDot noDots, List.nil_append, same]
    exact unescape_encodePath (by simp [noPercent])

end CodeNotes.Url
