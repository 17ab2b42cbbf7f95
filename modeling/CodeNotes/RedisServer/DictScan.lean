import CodeNotes.RedisServer.DictRefinement

/-!
# The scan of a dictionary that is resized meanwhile

`dictScan` of the Redis server goes through a dictionary with a cursor, one call at a time, and
between two calls anything may be done to the dictionary.  It visits the buckets in the order of
their reversed indices, so that a bucket of a small table is a block of consecutive buckets of a
larger one.  A call emits every entry whose hash has a position from the old cursor up to the new
one (`scan_spec`).  So a key that is there at every call of a complete scan is emitted, however the
tables were resized and rehashed between the calls (`scan_complete`).  A call of a scan always
returns, and a scan has as many calls at most as the largest table that a call meets has buckets,
but at least one (`scan_terminates`).
-/

namespace CodeNotes.RedisServer

open ReverseCounter Buckets Run

/-! ### Reversing a word -/

/-- `((v >> s) & mask) | ((v << s) & ~mask)`. -/
def swapBits (s : ℕ) (mask v : BitVec 64) : BitVec 64 :=
  ((v >>> s) &&& mask) ||| ((v <<< s) &&& ~~~mask)

/-- The body of the loop of `rev`, which has the mask and the word as its state. -/
def revStep (r : BitVec 64 × BitVec 64) (s : ℕ) : BitVec 64 × BitVec 64 :=
  (r.1 ^^^ (r.1 <<< s), swapBits s (r.1 ^^^ (r.1 <<< s)) r.2)

def rev (v : BitVec 64) : BitVec 64 := ([32, 16, 8, 4, 2, 1].foldl revStep (BitVec.allOnes 64, v)).2

/-- With the right mask, the bits are exchanged whose indices differ in one binary digit. -/
theorem getLsbD_swapBits {s : ℕ} {mask : BitVec 64}
    (right : ∀ i < 64, if mask.getLsbD i then i + s = i ^^^ s else s ≤ i ∧ i - s = i ^^^ s)
    (v : BitVec 64) {i : ℕ} (inside : i < 64) :
    (swapBits s mask v).getLsbD i = v.getLsbD (i ^^^ s) := by
  have index := right i inside
  rw [swapBits, BitVec.getLsbD_or, BitVec.getLsbD_and, BitVec.getLsbD_and,
    BitVec.getLsbD_ushiftRight, BitVec.getLsbD_shiftLeft, BitVec.getLsbD_not]
  cases masked : mask.getLsbD i with
  | true =>
    rw [if_pos masked] at index
    simp [Nat.add_comm s, index]
  | false =>
    rw [if_neg (by simp [masked])] at index
    simp [inside, index.2, not_lt.2 index.1]

theorem rev_eq_reverse (v : BitVec 64) : rev v = v.reverse := by
  apply BitVec.eq_of_getLsbD_eq
  intro i inside
  have bound {i s : ℕ} (hi : i < 64) (hs : s < 64) : i ^^^ s < 64 :=
    Nat.xor_lt_two_pow (n := 6) hi hs
  have digits : ∀ i < 64, i ^^^ 1 ^^^ 2 ^^^ 4 ^^^ 8 ^^^ 16 ^^^ 32 = 64 - 1 - i := by decide +kernel
  have h1 := bound inside (show 1 < 64 by omega)
  have h2 := bound h1 (show 2 < 64 by omega)
  have h4 := bound h2 (show 4 < 64 by omega)
  have h8 := bound h4 (show 8 < 64 by omega)
  have h16 := bound h8 (show 16 < 64 by omega)
  rw [BitVec.getLsbD_reverse, BitVec.getMsbD_eq_getLsbD, ← digits i inside, rev]
  simp only [List.foldl_cons, List.foldl_nil, revStep]
  rw [getLsbD_swapBits (by decide +kernel) _ inside, getLsbD_swapBits (by decide +kernel) _ h1,
    getLsbD_swapBits (by decide +kernel) _ h2, getLsbD_swapBits (by decide +kernel) _ h4,
    getLsbD_swapBits (by decide +kernel) _ h8, getLsbD_swapBits (by decide +kernel) _ h16]
  simp [inside]

/-! ### One call -/

/-- Set the bits above the mask and increment the reversed cursor. -/
def nextCursor (mask v : BitVec 64) : BitVec 64 := rev (rev (v ||| ~~~mask) + 1)

theorem nextCursor_eq_advance (v : BitVec 64) (exp : ℕ) :
    nextCursor (htSizeMask (some exp)) v = advance exp v := by
  rw [nextCursor, rev_eq_reverse, rev_eq_reverse]
  rfl

section Scan

variable {K V : Type}

/-- The `do` loop over the buckets of the larger table that are in the bucket of the smaller one. -/
def scanLarger (smaller larger : HashTable K V) : ℕ → BitVec 64 → Option (List (K × V) × BitVec 64)
  | 0, _ => none
  | fuel + 1, v =>
    (larger.table[bucketIndex v larger.sizeExp]?).bind fun chain =>
      let v := nextCursor (htSizeMask larger.sizeExp) v
      if v &&& (htSizeMask smaller.sizeExp ^^^ htSizeMask larger.sizeExp) ≠ 0 then
        (scanLarger smaller larger fuel v).map fun r => (chain ++ r.1, r.2)
      else some (chain, v)

/-- `dictScan`: the entries that are given to the callback, and the next cursor.  The loop goes
through the larger table at most once. -/
def Dict.scan (d : Dict K V) (v : BitVec 64) : Option (List (K × V) × BitVec 64) :=
  if d.size = 0 then some ([], 0)
  else if d.rehashidx = none then
    (d.ht0.table[bucketIndex v d.ht0.sizeExp]?).map fun chain =>
      (chain, nextCursor (htSizeMask d.ht0.sizeExp) v)
  else
    let smaller := if d.ht0.size > d.ht1.size then d.ht1 else d.ht0
    let larger := if d.ht0.size > d.ht1.size then d.ht0 else d.ht1
    (smaller.table[bucketIndex v smaller.sizeExp]?).bind fun chain =>
      (scanLarger smaller larger larger.size v).map fun r => (chain ++ r.1, r.2)

variable {hash : K → BitVec 64}

/-- A bucket has the entries whose hashes have positions in one block. -/
theorem HashTable.Valid.mem_bucket_iff {t : HashTable K V} (valid : t.Valid hash) {exp : ℕ}
    (size : t.sizeExp = some exp) {v : BitVec 64} {chain : List (K × V)}
    (found : t.table[bucketIndex v t.sizeExp]? = some chain) {de : K × V} :
    de ∈ chain ↔ de ∈ t.table.flatten ∧
      position (hash de.1) / 2 ^ (64 - exp) = position v / 2 ^ (64 - exp) := by
  have small : exp ≤ 64 := (valid.small exp size).trans (by omega)
  have same : bucketIndex (hash de.1) t.sizeExp = bucketIndex v t.sizeExp ↔
      position (hash de.1) / 2 ^ (64 - exp) = position v / 2 ^ (64 - exp) := by
    rw [size, ← and_low_eq_iff _ _ small]
    exact BitVec.toNat_inj
  rw [← same]
  constructor
  · intro inside
    exact ⟨Buckets.mem_flatten_iff.2 ⟨_, chain, found, inside⟩, valid.placed_of_mem found inside⟩
  · rintro ⟨member, index⟩
    rw [← index] at found
    exact (valid.mem_flatten_iff found).1 member

/-- The cursor is the first one after the blocks below `stop`, or zero after the last block. -/
def Reaches (v : BitVec 64) (exp stop : ℕ) : Prop :=
  v = 0 ∧ 2 ^ 64 = stop * 2 ^ (64 - exp) ∨ v ≠ 0 ∧ position v = stop * 2 ^ (64 - exp)

theorem reaches_advance (v : BitVec 64) {exp : ℕ} (small : exp ≤ 64) :
    Reaches (advance exp v) exp (position v / 2 ^ (64 - exp) + 1) := by
  rcases lt_position_advance v small with last | ⟨next, ahead⟩
  · exact Or.inl last
  · refine Or.inr ⟨fun zero => ?_, next⟩
    rw [zero, position_zero] at ahead
    exact absurd ahead (Nat.not_lt_zero _)

theorem Reaches.div_lt {v h : BitVec 64} {exp stop : ℕ} (reaches : Reaches v exp stop)
    (before : v = 0 ∨ position h < position v) : position h / 2 ^ (64 - exp) < stop := by
  apply Nat.div_lt_of_lt_mul
  rw [Nat.mul_comm]
  rcases reaches with ⟨-, last⟩ | ⟨nonzero, next⟩
  · exact last ▸ position_lt h
  · exact next ▸ before.resolve_left nonzero

/-- Of the positions from the cursor on, one block is before the next cursor. -/
theorem Reaches.div_eq {v v' h : BitVec 64} {exp : ℕ}
    (reaches : Reaches v' exp (position v / 2 ^ (64 - exp) + 1))
    (from_cursor : position v ≤ position h) (before : v' = 0 ∨ position h < position v') :
    position h / 2 ^ (64 - exp) = position v / 2 ^ (64 - exp) :=
  le_antisymm (Nat.lt_succ_iff.1 (reaches.div_lt before)) (Nat.div_le_div_right from_cursor)

/-- The end of a block of the smaller table, in blocks of the larger one. -/
theorem Reaches.coarsen {v : BitVec 64} {e₀ e₁ block : ℕ} (le : e₀ ≤ e₁) (small : e₁ ≤ 64)
    (reaches : Reaches v e₁ (block * 2 ^ (e₁ - e₀))) : Reaches v e₀ block := by
  rw [Reaches, Nat.mul_assoc, ← block_eq le small] at reaches
  exact reaches

/-- The loop stops where a block of the smaller table begins. -/
theorem next_stop {v v' : BitVec 64} {e₀ e₁ : ℕ} (le : e₀ ≤ e₁) (small : e₁ ≤ 64)
    (reaches : Reaches v' e₁ (position v / 2 ^ (64 - e₁) + 1))
    (begins : v' &&& (htSizeMask (some e₀) ^^^ htSizeMask (some e₁)) = 0) :
    (position v / 2 ^ (64 - e₁) / 2 ^ (e₁ - e₀) + 1) * 2 ^ (e₁ - e₀) =
      position v / 2 ^ (64 - e₁) + 1 := by
  rcases reaches with ⟨-, last⟩ | ⟨-, next⟩
  · have ahead := Nat.lt_mul_div_succ (position v / 2 ^ (64 - e₁)) (Nat.two_pow_pos (e₁ - e₀))
    have whole := block_le v (le.trans small)
    rw [block_eq le small, Nat.mul_comm (2 ^ (e₁ - e₀)), ← Nat.div_div_eq_div_mul,
      Nat.mul_comm (2 ^ (64 - e₁)), ← Nat.mul_assoc, last] at whole
    have within := Nat.le_of_mul_le_mul_right whole (Nat.two_pow_pos _)
    rw [Nat.mul_comm] at ahead
    omega
  · have aligned := (and_low_xor_low_eq_zero_iff v' le small).1 begins
    rw [next, Nat.mul_div_cancel _ (Nat.two_pow_pos _), ← Nat.dvd_iff_mod_eq_zero] at aligned
    rw [← Nat.succ_div_of_dvd aligned]
    exact Nat.div_mul_cancel aligned

/-- The entries of the larger table are emitted up to the end of the block of the smaller one.
Blocks of the larger table are counted: there are `2 ^ (e₁ - e₀)` of them in a block of the smaller,
and `stop` is the next one that begins such a block. -/
theorem scanLarger_spec {smaller larger : HashTable K V} (valid : larger.Valid hash) {e₀ e₁ : ℕ}
    (size₀ : smaller.sizeExp = some e₀) (size₁ : larger.sizeExp = some e₁) (le : e₀ ≤ e₁)
    {stop : ℕ} :
    ∀ fuel v, stop = (position v / 2 ^ (64 - e₁) / 2 ^ (e₁ - e₀) + 1) * 2 ^ (e₁ - e₀) →
      stop ≤ position v / 2 ^ (64 - e₁) + fuel →
      ∃ emitted v', scanLarger smaller larger fuel v = some (emitted, v') ∧ Reaches v' e₁ stop ∧
        (∀ de ∈ emitted, de ∈ larger.table.flatten) ∧
        ∀ de ∈ larger.table.flatten,
          position v / 2 ^ (64 - e₁) ≤ position (hash de.1) / 2 ^ (64 - e₁) →
          position (hash de.1) / 2 ^ (64 - e₁) < stop → de ∈ emitted := by
  have small : e₁ ≤ 64 := (valid.small e₁ size₁).trans (by omega)
  intro fuel
  induction fuel with
  | zero =>
    intro v stops enough
    have beyond := Nat.lt_mul_div_succ (position v / 2 ^ (64 - e₁)) (Nat.two_pow_pos (e₁ - e₀))
    rw [Nat.mul_comm] at beyond
    omega
  | succ fuel ih =>
    intro v stops enough
    obtain ⟨chain, found⟩ := valid.exists_chain (size₁ ▸ Option.some_ne_none e₁) v
    have inside {de : K × V} : de ∈ chain ↔ _ := valid.mem_bucket_iff size₁ found
    have reaches := reaches_advance v small
    rw [scanLarger, found, Option.bind_some]
    dsimp only
    rw [size₀, size₁, nextCursor_eq_advance]
    by_cases more : advance e₁ v &&& (htSizeMask (some e₀) ^^^ htSizeMask (some e₁)) ≠ 0
    · -- the next block is in the same block of the smaller table
      have nonzero : advance e₁ v ≠ 0 := fun zero => more (by rw [zero]; exact BitVec.zero_and)
      have next : position (advance e₁ v) / 2 ^ (64 - e₁) = position v / 2 ^ (64 - e₁) + 1 := by
        rcases reaches with ⟨zero, -⟩ | ⟨-, next⟩
        · exact absurd zero nonzero
        · rw [next, Nat.mul_div_cancel _ (Nat.two_pow_pos _)]
      have within := mt (and_low_xor_low_eq_zero_iff (advance e₁ v) le small).2 more
      rw [next, ← Nat.dvd_iff_mod_eq_zero] at within
      obtain ⟨emitted, v', rest, reaches', sound, complete⟩ := ih (advance e₁ v)
        (by rw [next, Nat.succ_div_of_not_dvd within, stops]) (by rw [next]; omega)
      rw [if_pos more, rest]
      refine ⟨chain ++ emitted, v', rfl, reaches', ?_, ?_⟩
      · intro de member
        rcases List.mem_append.1 member with member | member
        · exact (inside.1 member).1
        · exact sound de member
      · intro de member from_cursor before
        rw [List.mem_append, inside]
        rcases from_cursor.lt_or_eq with later | here
        · exact Or.inr (complete de member (by rw [next]; exact later) before)
        · exact Or.inl ⟨member, here.symm⟩
    · rw [if_neg more]
      have last : stop = position v / 2 ^ (64 - e₁) + 1 :=
        stops.trans (next_stop le small reaches (not_not.1 more))
      rw [← last] at reaches
      refine ⟨chain, advance e₁ v, rfl, reaches, fun de member => (inside.1 member).1, ?_⟩
      intro de member from_cursor before
      exact inside.2 ⟨member, by omega⟩

/-- What a call of `dictScan` does. -/
structure ScanStep (hash : K → BitVec 64) (d : Dict K V) (v : BitVec 64) (emitted : List (K × V))
    (v' : BitVec 64) : Prop where
  sound : ∀ de ∈ emitted, de ∈ d.entries
  complete : ∀ de ∈ d.entries, position v ≤ position (hash de.1) →
    (v' = 0 ∨ position (hash de.1) < position v') → de ∈ emitted
  progress : v' = 0 ∨ ∃ exp ≤ 60, htSize (some exp) ≤ d.ht0.size ∧
    Reaches v' exp (position v / 2 ^ (64 - exp) + 1)

/-- A call that goes through both tables, with the smaller one first. -/
theorem scan_both {smaller larger : HashTable K V} (valid₀ : smaller.Valid hash)
    (valid₁ : larger.Valid hash) {e₀ e₁ : ℕ} (size₀ : smaller.sizeExp = some e₀)
    (size₁ : larger.sizeExp = some e₁) (le : e₀ ≤ e₁) (v : BitVec 64) :
    ∃ chain emitted v', smaller.table[bucketIndex v smaller.sizeExp]? = some chain ∧
      scanLarger smaller larger larger.size v = some (emitted, v') ∧
      Reaches v' e₀ (position v / 2 ^ (64 - e₀) + 1) ∧
      (∀ de ∈ chain ++ emitted, de ∈ smaller.table.flatten ∨ de ∈ larger.table.flatten) ∧
      ∀ de, de ∈ smaller.table.flatten ∨ de ∈ larger.table.flatten →
        position v ≤ position (hash de.1) → (v' = 0 ∨ position (hash de.1) < position v') →
        de ∈ chain ++ emitted := by
  have small : e₁ ≤ 64 := (valid₁.small e₁ size₁).trans (by omega)
  obtain ⟨chain, found⟩ := valid₀.exists_chain (size₀ ▸ Option.some_ne_none e₀) v
  have inside {de : K × V} : de ∈ chain ↔ _ := valid₀.mem_bucket_iff size₀ found
  have coarse : position v / 2 ^ (64 - e₁) / 2 ^ (e₁ - e₀) = position v / 2 ^ (64 - e₀) := by
    rw [Nat.div_div_eq_div_mul, Nat.mul_comm, ← block_eq le small]
  have enough : (position v / 2 ^ (64 - e₁) / 2 ^ (e₁ - e₀) + 1) * 2 ^ (e₁ - e₀) ≤
      position v / 2 ^ (64 - e₁) + larger.size := by
    have blocks : position v / 2 ^ (64 - e₁) / 2 ^ (e₁ - e₀) * 2 ^ (e₁ - e₀) ≤
        position v / 2 ^ (64 - e₁) := Nat.div_mul_le_self _ _
    have size : 2 ^ (e₁ - e₀) ≤ larger.size := by
      rw [HashTable.size, size₁]
      exact Nat.pow_le_pow_right (by omega) (Nat.sub_le _ _)
    rw [Nat.add_one_mul]
    omega
  obtain ⟨emitted, v', looped, reaches, sound, complete⟩ :=
    scanLarger_spec valid₁ size₀ size₁ le larger.size v rfl enough
  have reaches₀ := reaches.coarsen le small
  rw [coarse] at reaches₀
  refine ⟨chain, emitted, v', found, looped, reaches₀, ?_, ?_⟩
  · intro de member
    rcases List.mem_append.1 member with member | member
    · exact Or.inl (inside.1 member).1
    · exact Or.inr (sound de member)
  · intro de member from_cursor before
    rw [List.mem_append]
    rcases member with member | member
    · exact Or.inl (inside.2 ⟨member, reaches₀.div_eq from_cursor before⟩)
    · exact Or.inr (complete de member (Nat.div_le_div_right from_cursor) (reaches.div_lt before))

theorem scan_spec {d : Dict K V} (inv : d.Inv hash) (v : BitVec 64) :
    ∃ emitted v', d.scan v = some (emitted, v') ∧ ScanStep hash d v emitted v' := by
  rw [Dict.scan]
  by_cases empty : d.size = 0
  · rw [if_pos empty]
    rw [inv.size_eq, List.length_eq_zero_iff] at empty
    refine ⟨[], 0, rfl, fun _ member => absurd member List.not_mem_nil, ?_, Or.inl rfl⟩
    intro de member
    rw [empty] at member
    exact absurd member List.not_mem_nil
  rw [if_neg empty]
  obtain ⟨exp, size⟩ := Option.ne_none_iff_exists'.1 (inv.allocated empty)
  have small := inv.ht0.small exp size
  by_cases idle : d.rehashidx = none
  · obtain ⟨chain, found⟩ := inv.ht0.exists_chain (inv.allocated empty) v
    have inside {de : K × V} : de ∈ chain ↔ _ := inv.ht0.mem_bucket_iff size found
    have reaches := reaches_advance v (small.trans (by omega))
    rw [if_pos idle, found, size, nextCursor_eq_advance]
    refine ⟨chain, advance exp v, rfl, ?_, ?_, Or.inr ⟨exp, small, ?_, reaches⟩⟩
    · intro de member
      rw [inv.entries_idle idle]
      exact (inside.1 member).1
    · intro de member from_cursor before
      rw [inv.entries_idle idle] at member
      exact inside.2 ⟨member, reaches.div_eq from_cursor before⟩
    · rw [HashTable.size, size]
  rw [if_neg idle]
  obtain ⟨exp', size'⟩ := Option.ne_none_iff_exists'.1 (inv.rehashing idle).2
  have sizes : d.ht0.size = 2 ^ exp ∧ d.ht1.size = 2 ^ exp' := by
    rw [HashTable.size, HashTable.size, size, size']
    exact ⟨rfl, rfl⟩
  by_cases shrinking : d.ht0.size > d.ht1.size
  · have le : exp' ≤ exp := by
      rw [sizes.1, sizes.2] at shrinking
      exact ((Nat.pow_lt_pow_iff_right (by omega)).1 shrinking).le
    obtain ⟨chain, emitted, v', found, looped, reaches, sound, complete⟩ :=
      scan_both inv.ht1 inv.ht0 size' size le v
    simp only [if_pos shrinking, found, Option.bind_some, looped, Option.map_some]
    refine ⟨_, v', rfl, fun de member => ?_, fun de member => complete de ?_, Or.inr
      ⟨exp', inv.ht1.small exp' size', ?_, reaches⟩⟩
    · exact Dict.mem_entries.2 (sound de member).symm
    · exact (Dict.mem_entries.1 member).symm
    · rw [htSize_some, ← sizes.2]
      exact shrinking.le
  · have le : exp ≤ exp' := by
      rw [sizes.1, sizes.2] at shrinking
      exact (Nat.pow_le_pow_iff_right (by omega)).1 (not_lt.1 shrinking)
    obtain ⟨chain, emitted, v', found, looped, reaches, sound, complete⟩ :=
      scan_both inv.ht0 inv.ht1 size size' le v
    simp only [if_neg shrinking, found, Option.bind_some, looped, Option.map_some]
    refine ⟨_, v', rfl, fun de member => ?_, fun de member => complete de ?_, Or.inr
      ⟨exp, small, sizes.1.ge, reaches⟩⟩
    · exact Dict.mem_entries.2 (sound de member)
    · exact Dict.mem_entries.1 member

/-- A table with at most `n` buckets has at most this power of two of them. -/
def bucketsExp (n : ℕ) : ℕ := min (Nat.log 2 n) 60

theorem two_pow_bucketsExp_le (n : ℕ) : 2 ^ bucketsExp n ≤ max 1 n := by
  have le : 2 ^ bucketsExp n ≤ 2 ^ Nat.log 2 n := Nat.pow_le_pow_right (by omega) (min_le_left _ _)
  rcases Nat.eq_zero_or_pos n with rfl | positive
  · exact le.trans (by simp)
  · exact le.trans ((Nat.pow_log_le_self 2 (by omega)).trans (le_max_right _ _))

theorem HashTable.Valid.size_le {t : HashTable K V} (valid : t.Valid hash) {n : ℕ}
    (le : t.size ≤ n) : t.size ≤ 2 ^ bucketsExp n := by
  rw [HashTable.size] at le ⊢
  cases size : t.sizeExp with
  | none => exact Nat.zero_le _
  | some exp =>
    rw [size, htSize_some] at le
    rw [htSize_some]
    exact Nat.pow_le_pow_right (by omega)
      (le_min (Nat.le_log_of_pow_le (by omega) le) (valid.small exp size))

end Scan

/-! ### Whole scans -/

/-- A scan in progress: the dictionary, the cursor of the next call, and what the calls have
emitted. -/
structure ScanState (K V : Type) where
  dict : Dict K V
  cursor : BitVec 64
  calls : ℕ
  emitted : List (K × V)

inductive ScanEvent (K V : Type) where
  | op (policy : Policy) (op : DictOp K V)
  | scan

section Runs

variable {K V : Type} [DecidableEq K]

def ScanState.start : ScanState K V := { dict := .create, cursor := 0, calls := 0, emitted := [] }

/-- The scan has come back to the cursor zero. -/
def ScanState.finished (s : ScanState K V) : Prop := s.calls ≠ 0 ∧ s.cursor = 0

instance (s : ScanState K V) : Decidable s.finished := inferInstanceAs (Decidable (_ ∧ _))

/-- Operations on the dictionary, and the calls of one scan. -/
def scanStep (hash : K → BitVec 64) (s : ScanState K V) : ScanEvent K V → Option (ScanState K V)
  | .op policy op =>
    (s.dict.perform hash (policy, op)).map fun r => { s with dict := r.1 }
  | .scan =>
    if s.finished then none
    else
      (s.dict.scan s.cursor).map fun r =>
        { s with cursor := r.2, calls := s.calls + 1, emitted := s.emitted ++ r.1 }

variable {hash : K → BitVec 64} {s s' : ScanState K V}

/-- Every dictionary with the invariant represents some map. -/
theorem Dict.Inv.exists_represents {d : Dict K V} (inv : d.Inv hash) :
    ∃ m, d.Represents hash m := by
  have nodup : (d.entries.map fun de => (⟨de.1, de.2⟩ : Sigma fun _ : K => V)).NodupKeys := by
    rw [List.NodupKeys, List.keys, List.map_map]
    exact inv.nodup
  refine ⟨AList.toFinmap ⟨_, nodup⟩, inv, fun key val => ?_⟩
  show _ ↔ val ∈ List.dlookup key (d.entries.map fun de => (⟨de.1, de.2⟩ : Sigma fun _ : K => V))
  rw [List.mem_dlookup_iff nodup, List.mem_map]
  constructor
  · exact fun member => ⟨(key, val), member, rfl⟩
  · rintro ⟨⟨_, _⟩, member, same⟩
    cases same
    exact member

/-- Every call that returns keeps the invariant. -/
theorem perform_inv {d d' : Dict K V} (inv : d.Inv hash) {policy : Policy} {op : DictOp K V}
    {answer : DictAnswer K V} (performed : d.perform hash (policy, op) = some (d', answer)) :
    d'.Inv hash := by
  obtain ⟨m, represents⟩ := inv.exists_represents
  have returned {d'' : Dict K V} {answer' : DictAnswer K V} (inv'' : d''.Inv hash)
      (same : d.perform hash (policy, op) = some (d'', answer')) : d'.Inv hash := by
    rw [performed, Option.some.injEq, Prod.mk.injEq] at same
    exact same.1 ▸ inv''
  cases op with
  | add key val =>
    by_cases ready : d.Ready
    · obtain ⟨d₁, added, represents₁, -⟩ := Dict.add_spec policy represents ready key val
      exact returned represents₁.inv (by rw [Dict.perform, added, Option.map_some])
    · rw [Dict.perform, Dict.add, Dict.addRaw_eq_none policy inv ready] at performed
      cases performed
  | replace key val =>
    by_cases ready : d.Ready
    · obtain ⟨d₁, replaced, represents₁, -⟩ := Dict.replace_spec policy represents ready key val
      exact returned represents₁.inv (by rw [Dict.perform, replaced, Option.map_some])
    · rw [Dict.perform, Dict.replace, Dict.addRaw_eq_none policy inv ready] at performed
      cases performed
  | find key =>
    obtain ⟨d₁, found, represents₁, -⟩ := Dict.find_spec policy represents key
    exact returned represents₁.inv (by rw [Dict.perform, found, Option.map_some])
  | delete key =>
    obtain ⟨d₁, deleted, represents₁, -⟩ := Dict.genericDelete_spec policy represents key
    exact returned represents₁.inv (by rw [Dict.perform, deleted, Option.map_some])
  | twoPhaseUnlink key =>
    obtain ⟨d₁, deleted, represents₁, -⟩ := Dict.twoPhaseUnlink_spec policy represents key
    exact returned represents₁.inv (by rw [Dict.perform, deleted, Option.map_some])
  | size => exact returned inv rfl
  | empty => exact returned Dict.inv_create rfl
  | pauseAutoResize => exact returned (inv.setPause _ _) rfl
  | resumeAutoResize => exact returned (inv.setPause _ _) rfl
  | maintain op =>
    obtain ⟨d₁, maintained, keeps⟩ := Dict.maintain_spec inv policy op
    exact returned keeps.inv (by rw [Dict.perform, maintained, Option.map_some])

/-- What a step is. -/
theorem scanStep_cases {e : ScanEvent K V} (stepped : scanStep hash s e = some s')
    (inv : s.dict.Inv hash) :
    (∃ policy op d, e = .op policy op ∧ d.Inv hash ∧ s' = { s with dict := d }) ∨
      e = .scan ∧ ¬ s.finished ∧ ∃ emitted v', ScanStep hash s.dict s.cursor emitted v' ∧
        s' = { s with cursor := v', calls := s.calls + 1, emitted := s.emitted ++ emitted } := by
  cases e with
  | op policy op =>
    obtain ⟨⟨d, answer⟩, performed, rfl⟩ := Option.map_eq_some_iff.1 stepped
    exact Or.inl ⟨policy, op, d, rfl, perform_inv inv performed, rfl⟩
  | scan =>
    rw [scanStep] at stepped
    split_ifs at stepped with finished
    obtain ⟨emitted, v', scanned, spec⟩ := scan_spec inv s.cursor
    rw [scanned, Option.map_some, Option.some.injEq] at stepped
    exact Or.inr ⟨rfl, finished, emitted, v', spec, stepped.symm⟩

/-- A condition on the dictionary at the calls of the scan. -/
def atCalls (condition : Dict K V → Prop) (s : ScanState K V) : ScanEvent K V → Prop
  | .op _ _ => True
  | .scan => condition s.dict

instance (condition : Dict K V → Prop) [DecidablePred condition] (s : ScanState K V) :
    (e : ScanEvent K V) → Decidable (atCalls condition s e)
  | .op _ _ => inferInstanceAs (Decidable True)
  | .scan => inferInstanceAs (Decidable (condition s.dict))

/-- What the calls so far guarantee of a key that was there at all of them. -/
structure Covers (hash : K → BitVec 64) (key : K) (s : ScanState K V) : Prop where
  inv : s.dict.Inv hash
  unstarted : s.calls = 0 → s.cursor = 0
  passed : s.calls ≠ 0 → (s.cursor = 0 ∨ position (hash key) < position s.cursor) →
    key ∈ s.emitted.map Prod.fst

theorem Covers.step {key : K} {e : ScanEvent K V} (covers : Covers hash key s)
    (present : atCalls (fun d => key ∈ d.entries.map Prod.fst) s e)
    (stepped : scanStep hash s e = some s') : Covers hash key s' := by
  obtain ⟨policy, op, d, rfl, inv, rfl⟩ | ⟨rfl, unfinished, emitted, v', spec, rfl⟩ :=
    scanStep_cases stepped covers.inv
  · exact ⟨inv, covers.unstarted, covers.passed⟩
  refine ⟨covers.inv, fun impossible => absurd impossible (Nat.succ_ne_zero _), fun _ passed => ?_⟩
  show key ∈ (s.emitted ++ emitted).map Prod.fst
  rw [List.map_append, List.mem_append]
  by_cases before : position (hash key) < position s.cursor
  · -- the position is only ahead of a cursor that is not the first
    refine Or.inl (covers.passed (fun first => ?_) (Or.inr before))
    rw [covers.unstarted first, position_zero] at before
    exact absurd before (Nat.not_lt_zero _)
  · obtain ⟨⟨_, val⟩, member, rfl⟩ := List.mem_map.1 present
    exact Or.inr (List.mem_map.2 ⟨_, spec.complete _ member (not_lt.1 before) passed, rfl⟩)

/-- A key that was at no call in the dictionary is not emitted. -/
theorem not_emitted_step {key : K} {e : ScanEvent K V}
    (absent : atCalls (fun d => key ∉ d.entries.map Prod.fst) s e)
    (stepped : scanStep hash s e = some s')
    (before : s.dict.Inv hash ∧ key ∉ s.emitted.map Prod.fst) :
    s'.dict.Inv hash ∧ key ∉ s'.emitted.map Prod.fst := by
  obtain ⟨policy, op, d, rfl, inv, rfl⟩ | ⟨rfl, unfinished, emitted, v', spec, rfl⟩ :=
    scanStep_cases stepped before.1
  · exact ⟨inv, before.2⟩
  refine ⟨before.1, ?_⟩
  show key ∉ (s.emitted ++ emitted).map Prod.fst
  rw [List.map_append, List.mem_append]
  rintro (old | new)
  · exact before.2 old
  · obtain ⟨de, member, rfl⟩ := List.mem_map.1 new
    exact absent (List.mem_map.2 ⟨de, spec.sound de member, rfl⟩)

/-- **A complete scan emits the keys that were there all the time, and no key that never was.**
Between the calls the dictionary may be changed, resized and rehashed in any way, and automatic
resizing paused and resumed at any moment. -/
theorem scan_complete (key : K) {events : List (ScanEvent K V)} (finished : s.finished) :
    (run (restrict (atCalls fun d => key ∈ d.entries.map Prod.fst) (scanStep hash)) .start events =
        some s → key ∈ s.emitted.map Prod.fst) ∧
      (run (restrict (atCalls fun d => key ∉ d.entries.map Prod.fst) (scanStep hash)) .start
        events = some s → key ∉ s.emitted.map Prod.fst) := by
  constructor
  · intro ran
    have covers := run_invariant (I := Covers hash key) (fun s e s' covers stepped =>
      covers.step (restrict_eq_some.1 stepped).1 (restrict_eq_some.1 stepped).2)
      ⟨Dict.inv_create, fun _ => rfl, fun impossible => absurd rfl impossible⟩ ran
    exact covers.passed finished.1 (Or.inl finished.2)
  · intro ran
    exact (run_invariant (I := fun s => s.dict.Inv hash ∧ key ∉ s.emitted.map Prod.fst)
      (fun s e s' before stepped =>
        not_emitted_step (restrict_eq_some.1 stepped).1 (restrict_eq_some.1 stepped).2 before)
      ⟨Dict.inv_create, List.not_mem_nil⟩ ran).2

/-- A scan of two keys, with an expansion after the first call. -/
theorem scan_complete_expanded :
    ∃ s : ScanState ℕ ℕ, run (restrict (atCalls fun d => 1 ∈ d.entries.map Prod.fst)
        (scanStep (BitVec.ofNat 64))) .start
        [.op ⟨.enable, fun _ _ _ => true⟩ (.add 1 10),
          .op ⟨.enable, fun _ _ _ => true⟩ (.add 2 20), .scan,
          .op ⟨.enable, fun _ _ _ => true⟩ (.maintain (.expand 8)), .scan,
          .op ⟨.enable, fun _ _ _ => true⟩ (.maintain (.rehash 1)), .scan, .scan] = some s ∧
      1 ∈ s.emitted.map Prod.fst := by
  have finishes : ((run (restrict (atCalls fun d => 1 ∈ d.entries.map Prod.fst)
      (scanStep (BitVec.ofNat 64))) (.start : ScanState ℕ ℕ)
        [.op ⟨.enable, fun _ _ _ => true⟩ (.add 1 10),
          .op ⟨.enable, fun _ _ _ => true⟩ (.add 2 20), .scan,
          .op ⟨.enable, fun _ _ _ => true⟩ (.maintain (.expand 8)), .scan,
          .op ⟨.enable, fun _ _ _ => true⟩ (.maintain (.rehash 1)), .scan, .scan]).map
      fun s => decide s.finished) = some true := by decide +kernel
  obtain ⟨s, ran, finished⟩ := Option.map_eq_some_iff.1 finishes
  exact ⟨s, ran, (scan_complete 1 (of_decide_eq_true finished)).1 ran⟩

/-- The calls so far have each passed a block. -/
structure Advances (hash : K → BitVec 64) (exp : ℕ) (s : ScanState K V) : Prop where
  inv : s.dict.Inv hash
  unstarted : s.calls = 0 → s.cursor = 0
  ahead : s.cursor ≠ 0 → s.calls * 2 ^ (64 - exp) ≤ position s.cursor
  bound : s.calls ≤ 2 ^ exp

theorem Advances.step {exp : ℕ} (small : exp ≤ 64) {e : ScanEvent K V}
    (advances : Advances hash exp s)
    (sized : atCalls (fun d => d.ht0.size ≤ 2 ^ exp) s e) (stepped : scanStep hash s e = some s') :
    Advances hash exp s' := by
  obtain ⟨policy, op, d, rfl, inv, rfl⟩ | ⟨rfl, unfinished, emitted, v', spec, rfl⟩ :=
    scanStep_cases stepped advances.inv
  · exact ⟨inv, advances.unstarted, advances.ahead, advances.bound⟩
  have whole : 2 ^ 64 = 2 ^ exp * 2 ^ (64 - exp) := by rw [← pow_add, Nat.add_sub_cancel' small]
  -- the calls before this one are behind the cursor
  have behind : s.calls * 2 ^ (64 - exp) ≤ position s.cursor := by
    by_cases zero : s.cursor = 0
    · have first : s.calls = 0 := by
        by_contra started
        exact unfinished ⟨started, zero⟩
      rw [first, Nat.zero_mul]
      exact Nat.zero_le _
    · exact advances.ahead zero
  have fewer : s.calls < 2 ^ exp := by
    have below := behind.trans_lt (position_lt s.cursor)
    rw [whole] at below
    exact Nat.lt_of_mul_lt_mul_right below
  refine ⟨advances.inv, fun impossible => absurd impossible (Nat.succ_ne_zero _), ?_, fewer⟩
  intro nonzero
  rcases spec.progress with zero | ⟨exp', -, size, ⟨zero, -⟩ | ⟨-, next⟩⟩
  · exact absurd zero nonzero
  · exact absurd zero nonzero
  have le : exp' ≤ exp := (Nat.pow_le_pow_iff_right (by omega)).1 (size.trans sized)
  have later : position s.cursor < position v' := by
    rw [next, Nat.mul_comm]
    exact Nat.lt_mul_div_succ _ (Nat.two_pow_pos _)
  have passed := behind.trans_lt later
  show (s.calls + 1) * 2 ^ (64 - exp) ≤ position v'
  rw [next, block_eq le small, ← Nat.mul_assoc] at passed ⊢
  exact Nat.mul_le_mul_right _ (Nat.lt_of_mul_lt_mul_right passed)

/-- The calls of a scan that is not finished go on. -/
theorem scan_returns (inv : s.dict.Inv hash) (unfinished : ¬ s.finished) :
    ∃ s', scanStep hash s .scan = some s' ∧ s'.calls = s.calls + 1 := by
  obtain ⟨emitted, v', scanned, -⟩ := scan_spec inv s.cursor
  rw [scanStep, if_neg unfinished, scanned, Option.map_some]
  exact ⟨_, rfl, rfl⟩

/-- **A scan ends.**  As long as it is not finished the next call returns, and it has no more calls
than the largest first table that a call meets has buckets, or one if no call meets a table. -/
theorem scan_terminates {n : ℕ} {events : List (ScanEvent K V)}
    (ran : run (restrict (atCalls fun d => d.ht0.size ≤ n) (scanStep hash)) .start events =
      some s) :
    s.calls ≤ max 1 n ∧
      (¬ s.finished → ∃ s', scanStep hash s .scan = some s' ∧ s'.calls = s.calls + 1) := by
  have advances := run_invariant (I := Advances hash (bucketsExp n))
    (fun s e s' advances stepped => by
      obtain ⟨sized, stepped⟩ := restrict_eq_some.1 stepped
      refine advances.step ((min_le_right _ _).trans (by omega)) ?_ stepped
      cases e with
      | op policy op => trivial
      | scan => exact advances.inv.ht0.size_le sized)
    ⟨Dict.inv_create, fun _ => rfl, fun impossible => absurd rfl impossible, Nat.zero_le _⟩ ran
  exact ⟨advances.bound.trans (two_pow_bucketsExp_le n), scan_returns advances.inv⟩

theorem scan_terminates_expanded :
    ∃ s : ScanState ℕ ℕ, run (restrict (atCalls fun d => d.ht0.size ≤ 4)
        (scanStep (BitVec.ofNat 64))) .start
        [.op ⟨.enable, fun _ _ _ => true⟩ (.add 1 10),
          .op ⟨.enable, fun _ _ _ => true⟩ (.add 2 20), .scan,
          .op ⟨.enable, fun _ _ _ => true⟩ (.maintain (.expand 8)), .scan,
          .op ⟨.enable, fun _ _ _ => true⟩ (.maintain (.rehash 1)), .scan] = some s ∧
      s.calls ≤ max 1 4 ∧
      ∃ s', scanStep (BitVec.ofNat 64) s .scan = some s' ∧ s'.calls = s.calls + 1 := by
  have runs : (run (restrict (atCalls fun d => d.ht0.size ≤ 4)
      (scanStep (BitVec.ofNat 64))) (.start : ScanState ℕ ℕ)
        [.op ⟨.enable, fun _ _ _ => true⟩ (.add 1 10),
          .op ⟨.enable, fun _ _ _ => true⟩ (.add 2 20), .scan,
          .op ⟨.enable, fun _ _ _ => true⟩ (.maintain (.expand 8)), .scan,
          .op ⟨.enable, fun _ _ _ => true⟩ (.maintain (.rehash 1)), .scan]).map
      (fun s => decide s.finished) = some false := by
    decide +kernel
  obtain ⟨s, ran, unfinished⟩ := Option.map_eq_some_iff.1 runs
  obtain ⟨bound, next⟩ := scan_terminates ran
  exact ⟨s, ran, bound, next (of_decide_eq_false unfinished)⟩

end Runs

end CodeNotes.RedisServer
