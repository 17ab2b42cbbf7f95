import CodeNotes.RedisServer.Dict
import CodeNotes.Lib.Buckets

/-!
# The invariant of the hash table

A dictionary in use has every entry in the bucket of its hash, no key twice, and in the old table no
entry below `rehashidx` (`Dict.Inv`).  Resizing and rehashing keep the invariant and, up to their
order, the entries of the two tables together (`Dict.Keeps`).  Each function of these two groups has
one lemma, which also says that no assertion fails and no read leaves its table: `Resized` is what a
resize does, `Rehashed` what any amount of rehashing does.
-/

namespace CodeNotes.RedisServer

open ReverseCounter Buckets

theorem htSize_some (exp : ℕ) : htSize (some exp) = 2 ^ exp := rfl

theorem bucketIndex_some (hash : BitVec 64) (exp : ℕ) :
    bucketIndex hash (some exp) = hash.toNat % 2 ^ exp :=
  toNat_and_low hash exp

theorem bucketIndex_lt (hash : BitVec 64) {exp : Option ℕ} (allocated : exp ≠ none) :
    bucketIndex hash exp < htSize exp := by
  obtain ⟨exp, rfl⟩ := Option.ne_none_iff_exists'.1 allocated
  rw [bucketIndex_some]
  exact Nat.mod_lt _ (Nat.two_pow_pos exp)

namespace HashTable

variable {K V : Type} {hash : K → BitVec 64} {t : HashTable K V}

structure Valid (hash : K → BitVec 64) (t : HashTable K V) : Prop where
  length : t.table.length = t.size
  used : t.used = t.table.flatten.length
  placed : Placed (fun de => bucketIndex (hash de.1) t.sizeExp) t.table
  small : ∀ exp, t.sizeExp = some exp → exp ≤ 60

theorem valid_reset : (reset : HashTable K V).Valid hash where
  length := rfl
  used := rfl
  placed := placed_nil _
  small _ impossible := by cases impossible

theorem valid_new (hash : K → BitVec 64) {exp : ℕ} (small : exp ≤ 60) :
    ({ table := List.replicate (2 ^ exp) [], used := 0, sizeExp := some exp } :
      HashTable K V).Valid hash where
  length := List.length_replicate
  used := by simp
  placed := placed_replicate _ _
  small _ same := Option.some.inj same ▸ small

theorem Valid.exists_chain (valid : t.Valid hash) (allocated : t.sizeExp ≠ none) (h : BitVec 64) :
    ∃ chain, t.table[bucketIndex h t.sizeExp]? = some chain := by
  have inside : bucketIndex h t.sizeExp < t.table.length := by
    rw [valid.length]
    exact bucketIndex_lt h allocated
  exact ⟨_, List.getElem?_eq_getElem inside⟩

theorem Valid.lt_size (valid : t.Valid hash) {idx : ℕ} {chain : List (K × V)}
    (found : t.table[idx]? = some chain) : idx < t.size := by
  rw [← valid.length]
  exact (List.getElem?_eq_some_iff.1 found).1

/-- A bucket is exchanged for one of entries with the same place. -/
theorem Valid.set (valid : t.Valid hash) {idx used : ℕ} {chain chain' : List (K × V)}
    (found : t.table[idx]? = some chain)
    (placed : ∀ de ∈ chain', bucketIndex (hash de.1) t.sizeExp = idx)
    (count : used + chain.length = t.used + chain'.length) :
    ({ t with table := t.table.set idx chain', used } : HashTable K V).Valid hash where
  length := by
    show (t.table.set idx chain').length = t.size
    rw [List.length_set, valid.length]
  used := by
    have exchange := (flatten_set_perm chain' found).length_eq
    rw [List.length_append, List.length_append, ← valid.used] at exchange
    show used = (t.table.set idx chain').flatten.length
    omega
  placed := valid.placed.set placed
  small := valid.small

theorem Valid.placed_of_mem (valid : t.Valid hash) {idx : ℕ} {chain : List (K × V)}
    (found : t.table[idx]? = some chain) {de : K × V} (inside : de ∈ chain) :
    bucketIndex (hash de.1) t.sizeExp = idx :=
  valid.placed idx chain found de inside

/-- A key is looked for in one bucket. -/
theorem Valid.mem_flatten_iff (valid : t.Valid hash) {key : K} {val : V} {chain : List (K × V)}
    (found : t.table[bucketIndex (hash key) t.sizeExp]? = some chain) :
    (key, val) ∈ t.table.flatten ↔ (key, val) ∈ chain :=
  valid.placed.mem_flatten_iff found

end HashTable

namespace Dict

variable {K V : Type} {hash : K → BitVec 64} {d d' d'' : Dict K V}

def entries (d : Dict K V) : List (K × V) := d.ht0.table.flatten ++ d.ht1.table.flatten

structure Inv (hash : K → BitVec 64) (d : Dict K V) : Prop where
  ht0 : d.ht0.Valid hash
  ht1 : d.ht1.Valid hash
  nodup : (d.entries.map Prod.fst).Nodup
  idle : d.rehashidx = none → d.ht1 = .reset
  rehashing : d.rehashidx ≠ none → d.ht0.sizeExp ≠ none ∧ d.ht1.sizeExp ≠ none
  moved : ∀ rehashidx, d.rehashidx = some rehashidx →
    ∀ idx < rehashidx, d.ht0.table[idx]? = some []

/-- Automatic resizing is not paused before there is a table: the first entry would have no
bucket. -/
def Ready (d : Dict K V) : Prop := d.pauseAutoResize > 0 → d.ht0.sizeExp ≠ none

theorem inv_create : (create : Dict K V).Inv hash where
  ht0 := HashTable.valid_reset
  ht1 := HashTable.valid_reset
  nodup := List.nodup_nil
  idle _ := rfl
  rehashing busy := absurd rfl busy
  moved _ impossible := by cases impossible

theorem Inv.ht (inv : d.Inv hash) : ∀ i, (d.ht i).Valid hash
  | 0 => inv.ht0
  | 1 => inv.ht1

theorem Inv.size_eq (inv : d.Inv hash) : d.size = d.entries.length := by
  rw [size, entries, List.length_append, inv.ht0.used, inv.ht1.used]

theorem Inv.entries_idle (inv : d.Inv hash) (idle : d.rehashidx = none) :
    d.entries = d.ht0.table.flatten := by
  rw [entries, inv.idle idle]
  exact List.append_nil _

/-- A dictionary with entries has its first table. -/
theorem Inv.allocated (inv : d.Inv hash) (inhabited : d.size ≠ 0) : d.ht0.sizeExp ≠ none := by
  intro missing
  by_cases idle : d.rehashidx = none
  · have length := inv.ht0.length
    rw [HashTable.size, missing] at length
    rw [inv.size_eq, inv.entries_idle idle, List.eq_nil_of_length_eq_zero length] at inhabited
    exact inhabited rfl
  · exact (inv.rehashing idle).1 missing

/-- Entries of one key are the same entry. -/
theorem Inv.eq_of_mem (inv : d.Inv hash) {key : K} {val val' : V} (mem : (key, val) ∈ d.entries)
    (mem' : (key, val') ∈ d.entries) : val = val' := by
  have same := List.inj_on_of_nodup_map inv.nodup mem mem' rfl
  exact congrArg Prod.snd same

theorem Inv.setPause (inv : d.Inv hash) (pauserehash : BitVec 15) (pauseAutoResize : Int16) :
    Inv hash { d with pauserehash, pauseAutoResize } where
  ht0 := inv.ht0
  ht1 := inv.ht1
  nodup := inv.nodup
  idle := inv.idle
  rehashing := inv.rehashing
  moved := inv.moved

/-- What every operation on the entries leaves as it is. -/
structure Frame (d d' : Dict K V) : Prop where
  pauses : d'.pauseAutoResize = d.pauseAutoResize
  allocated : d.ht0.sizeExp ≠ none → d'.ht0.sizeExp ≠ none

theorem Frame.refl (d : Dict K V) : d.Frame d := ⟨rfl, id⟩

theorem Frame.trans (first : d.Frame d') (second : d'.Frame d'') : d.Frame d'' :=
  ⟨second.pauses.trans first.pauses, second.allocated ∘ first.allocated⟩

theorem Frame.ready (frame : d.Frame d') (ready : d.Ready) : d'.Ready := by
  intro paused
  rw [frame.pauses] at paused
  exact frame.allocated (ready paused)

/-- What resizing and rehashing do. -/
structure Keeps (hash : K → BitVec 64) (d d' : Dict K V) : Prop extends Frame d d' where
  inv : d'.Inv hash
  perm : d'.entries.Perm d.entries

theorem Inv.keeps (inv : d.Inv hash) : d.Keeps hash d := ⟨.refl d, inv, .rfl⟩

theorem Keeps.trans (first : d.Keeps hash d') (second : d'.Keeps hash d'') : d.Keeps hash d'' :=
  ⟨first.toFrame.trans second.toFrame, second.inv, second.perm.trans first.perm⟩

/-- Keys stay without duplicates when entries are only reordered. -/
theorem Inv.nodup_of_perm (inv : d.Inv hash) (perm : d'.entries.Perm d.entries) :
    (d'.entries.map Prod.fst).Nodup :=
  (perm.map Prod.fst).nodup_iff.2 inv.nodup

/-! ### Resizing -/

/-- The check for an overflow leaves tables whose indices are far below the width of a hash. -/
theorem exp_le_of_not_overflow {exp : ℕ} (fits : ¬ 2 ^ exp * 8 % 2 ^ 64 < 2 ^ exp) : exp ≤ 60 := by
  by_contra large
  have split : 2 ^ exp * 8 = 2 ^ 64 * 2 ^ (exp - 61) := by
    rw [show (8 : ℕ) = 2 ^ 3 from rfl, ← pow_add, ← pow_add]
    congr 1
    omega
  rw [split, Nat.mul_mod_right] at fits
  exact fits (Nat.two_pow_pos exp)

/-- A resize leaves no rehashing that has begun. -/
structure Resized (hash : K → BitVec 64) (d d' : Dict K V) : Prop extends Keeps hash d d' where
  fresh : d' = d ∨ ∀ rehashidx, d'.rehashidx = some rehashidx → rehashidx = 0

theorem Inv.resized (inv : d.Inv hash) : d.Resized hash d := ⟨inv.keeps, Or.inl rfl⟩

/-- The two ways a new table is taken in. -/
theorem Inv.resized_table (inv : d.Inv hash) (idle : d.rehashidx = none) {new : HashTable K V}
    (valid : new.Valid hash) (empty : new.table.flatten = []) (exists_table : new.sizeExp ≠ none) :
    (d.ht0.used = 0 → d.Resized hash { d with ht0 := new, ht1 := .reset, rehashidx := none }) ∧
      (d.ht0.sizeExp ≠ none → d.Resized hash { d with ht1 := new, rehashidx := some 0 }) := by
  constructor
  · intro unused
    have none_before : d.entries = [] := by
      rw [inv.entries_idle idle]
      exact List.eq_nil_of_length_eq_zero (inv.ht0.used.symm.trans unused)
    have none_after : entries { d with ht0 := new, ht1 := .reset, rehashidx := none } = [] := by
      rw [entries, empty]
      rfl
    have perm :
        (entries { d with ht0 := new, ht1 := .reset, rehashidx := none }).Perm d.entries := by
      rw [none_before, none_after]
    exact {
      inv := {
        ht0 := valid
        ht1 := HashTable.valid_reset
        nodup := inv.nodup_of_perm perm
        idle := fun _ => rfl
        rehashing := fun busy => absurd rfl busy
        moved := fun _ impossible => by cases impossible }
      perm
      pauses := rfl
      fresh := Or.inr fun _ impossible => by cases impossible
      allocated := fun _ => exists_table }
  · intro allocated
    have same : entries { d with ht1 := new, rehashidx := some 0 } = d.entries := by
      rw [inv.entries_idle idle, entries, empty]
      exact List.append_nil _
    have perm : (entries { d with ht1 := new, rehashidx := some 0 }).Perm d.entries := by
      rw [same]
    exact {
      inv := {
        ht0 := inv.ht0
        ht1 := valid
        nodup := inv.nodup_of_perm perm
        idle := fun impossible => by cases impossible
        rehashing := fun _ => ⟨allocated, exists_table⟩
        moved := fun rehashidx begun idx below => by
          obtain rfl : 0 = rehashidx := Option.some.inj begun
          exact absurd below (Nat.not_lt_zero idx) }
      perm
      pauses := rfl
      fresh := Or.inr fun rehashidx begun => (Option.some.inj begun).symm
      allocated := id }

theorem resize_spec (inv : d.Inv hash) (idle : d.rehashidx = none) (size : ℕ) :
    ∃ d' done, d.resize size = some (d', done) ∧ d.Resized hash d' := by
  rw [resize, if_neg (not_not.2 idle)]
  dsimp only
  split_ifs with overflow same unused
  · exact ⟨d, false, rfl, inv.resized⟩
  · exact ⟨d, false, rfl, inv.resized⟩
  all_goals
    have small : nextExp size ≤ 60 := exp_le_of_not_overflow (not_or.1 overflow).2
    have tables := inv.resized_table idle (HashTable.valid_new hash small)
      (flatten_replicate_nil _) (Option.some_ne_none _)
  · refine ⟨_, true, rfl, tables.1 ?_⟩
    rcases unused with missing | unused
    · by_contra used
      refine inv.allocated ?_ missing
      rw [Dict.size]
      omega
    · exact unused
  · exact ⟨_, true, rfl, tables.2 (not_or.1 unused).1⟩

theorem expand_spec (inv : d.Inv hash) (size : ℕ) :
    ∃ d' done, d.expand size = some (d', done) ∧ d.Resized hash d' := by
  rw [expand]
  split_ifs with refused
  · exact ⟨d, false, rfl, inv.resized⟩
  · exact resize_spec inv (not_not.1 (not_or.1 refused).1) size

theorem shrink_spec (inv : d.Inv hash) (size : ℕ) :
    ∃ d' done, d.shrink size = some (d', done) ∧ d.Resized hash d' := by
  rw [shrink]
  split_ifs with refused
  · exact ⟨d, false, rfl, inv.resized⟩
  · exact resize_spec inv (not_not.1 (not_or.1 refused).1) size

/-- The first table is allocated. -/
theorem expand_initial (inv : d.Inv hash) (missing : d.ht0.sizeExp = none) :
    ∃ d', d.expand DICT_HT_INITIAL_SIZE = some (d', true) ∧ d.Resized hash d' ∧
      d'.ht0.sizeExp ≠ none := by
  have unused : d.ht0.used = 0 := by
    by_contra used
    refine inv.allocated ?_ missing
    rw [Dict.size]
    omega
  have idle : d.rehashidx = none := by
    by_contra busy
    exact (inv.rehashing busy).1 missing
  have tables := inv.resized_table idle (HashTable.valid_new hash (show 2 ≤ 60 by omega))
    (flatten_replicate_nil _) (Option.some_ne_none _)
  refine ⟨_, ?_, tables.1 unused, Option.some_ne_none _⟩
  simp [expand, resize, idle, unused, missing, HashTable.size, htSize, nextExp,
    DICT_HT_INITIAL_SIZE, DICT_HT_INITIAL_EXP]

theorem expandIfNeeded_spec (policy : Policy) (inv : d.Inv hash) :
    ∃ d' done, d.expandIfNeeded policy = some (d', done) ∧ d.Resized hash d' ∧
      d'.ht0.sizeExp ≠ none := by
  rw [expandIfNeeded]
  by_cases busy : d.rehashidx ≠ none
  · rw [if_pos busy]
    exact ⟨d, true, rfl, inv.resized, (inv.rehashing busy).1⟩
  by_cases missing : d.ht0.sizeExp = none
  · obtain ⟨d', expanded, resized, allocated⟩ := expand_initial inv missing
    have no_buckets : d.ht0.size = 0 := by rw [HashTable.size, missing]; rfl
    rw [if_neg busy, if_pos no_buckets, expanded]
    exact ⟨d', true, rfl, resized, allocated⟩
  have buckets : d.ht0.size ≠ 0 := by
    obtain ⟨exp, allocated⟩ := Option.ne_none_iff_exists'.1 missing
    rw [HashTable.size, allocated]
    exact (Nat.two_pow_pos exp).ne'
  rw [if_neg busy, if_neg buckets]
  split_ifs with full allowed
  · obtain ⟨d', done, expanded, resized⟩ := expand_spec inv (d.ht0.used + 1)
    rw [expanded]
    exact ⟨d', true, rfl, resized, resized.allocated missing⟩
  · exact ⟨d, true, rfl, inv.resized, missing⟩
  · exact ⟨d, false, rfl, inv.resized, missing⟩

theorem autoExpand_spec (policy : Policy) (inv : d.Inv hash) (ready : d.Ready) :
    ∃ d', d.autoExpand policy = some d' ∧ d.Resized hash d' ∧ d'.ht0.sizeExp ≠ none := by
  rw [autoExpand]
  split_ifs with paused
  · exact ⟨d, rfl, inv.resized, ready paused⟩
  · obtain ⟨d', done, expanded, resized⟩ := expandIfNeeded_spec policy inv
    rw [expanded]
    exact ⟨d', rfl, resized⟩

theorem shrinkIfNeeded_spec (policy : Policy) (inv : d.Inv hash) :
    ∃ d' done, d.shrinkIfNeeded policy = some (d', done) ∧ d.Resized hash d' := by
  rw [shrinkIfNeeded]
  split_ifs
  · exact ⟨d, true, rfl, inv.resized⟩
  · exact ⟨d, true, rfl, inv.resized⟩
  · obtain ⟨d', done, shrunk, resized⟩ := shrink_spec inv d.ht0.used
    rw [shrunk]
    exact ⟨d', true, rfl, resized⟩
  · exact ⟨d, true, rfl, inv.resized⟩
  · exact ⟨d, false, rfl, inv.resized⟩

theorem autoShrink_spec (policy : Policy) (inv : d.Inv hash) :
    ∃ d', d.autoShrink policy = some d' ∧ d.Resized hash d' := by
  rw [autoShrink]
  split_ifs with paused
  · exact ⟨d, rfl, inv.resized⟩
  · obtain ⟨d', done, shrunk, resized⟩ := shrinkIfNeeded_spec policy inv
    rw [shrunk]
    exact ⟨d', rfl, resized⟩

/-! ### Rehashing -/

/-- The bucket that `rehashEntriesInBucketAtIndex` computes is the one of the hash, whether the
table grows or shrinks. -/
theorem rehash_index {exp₀ exp₁ : Option ℕ} (allocated₀ : exp₀ ≠ none) (allocated₁ : exp₁ ≠ none)
    (small : ∀ exp, exp₀ = some exp → exp ≤ 60) (h : BitVec 64) :
    (if htSize exp₁ > htSize exp₀ then bucketIndex h exp₁
      else bucketIndex (BitVec.ofNat 64 (bucketIndex h exp₀)) exp₁) = bucketIndex h exp₁ := by
  obtain ⟨exp₀, rfl⟩ := Option.ne_none_iff_exists'.1 allocated₀
  obtain ⟨exp₁, rfl⟩ := Option.ne_none_iff_exists'.1 allocated₁
  split_ifs with grows
  · rfl
  · have smaller : exp₁ ≤ exp₀ := by
      rw [htSize_some, htSize_some, gt_iff_lt, Nat.pow_lt_pow_iff_right (by omega)] at grows
      exact not_lt.1 grows
    have word : 2 ^ exp₀ ∣ 2 ^ 64 := pow_dvd_pow 2 ((small exp₀ rfl).trans (by omega))
    have inside : h.toNat % 2 ^ exp₀ < 2 ^ 64 :=
      (Nat.mod_lt _ (Nat.two_pow_pos _)).trans_le (Nat.le_of_dvd (by norm_num) word)
    rw [bucketIndex_some, bucketIndex_some, bucketIndex_some, BitVec.toNat_ofNat,
      Nat.mod_eq_of_lt inside, Nat.mod_mod_of_dvd _ (pow_dvd_pow 2 smaller)]

/-- The new table has taken in the entries of a bucket. -/
structure Receives (hash : K → BitVec 64) (t : HashTable K V) (chain : List (K × V))
    (t' : HashTable K V) : Prop where
  valid : t'.Valid hash
  sizeExp : t'.sizeExp = t.sizeExp
  perm : t'.table.flatten.Perm (chain ++ t.table.flatten)

theorem rehashEntry_spec {idx : ℕ} {de : K × V} (valid : d.ht1.Valid hash)
    (small : ∀ exp, d.ht0.sizeExp = some exp → exp ≤ 60) (allocated₀ : d.ht0.sizeExp ≠ none)
    (allocated₁ : d.ht1.sizeExp ≠ none) (placed : bucketIndex (hash de.1) d.ht0.sizeExp = idx) :
    ∃ t, rehashEntry hash idx d de =
        some { d with ht0 := { d.ht0 with used := d.ht0.used - 1 }, ht1 := t } ∧
      Receives hash d.ht1 [de] t := by
  obtain ⟨chain, found⟩ := valid.exists_chain allocated₁ (hash de.1)
  have index : (if d.ht1.size > d.ht0.size then bucketIndex (hash de.1) d.ht1.sizeExp
      else bucketIndex (BitVec.ofNat 64 idx) d.ht1.sizeExp) =
      bucketIndex (hash de.1) d.ht1.sizeExp := by
    rw [← placed]
    exact rehash_index allocated₀ allocated₁ small (hash de.1)
  refine ⟨{ d.ht1 with
    table := d.ht1.table.set (bucketIndex (hash de.1) d.ht1.sizeExp) (de :: chain)
    used := d.ht1.used + 1 }, ?_, ?_, rfl, ?_⟩
  · rw [rehashEntry]
    dsimp only
    rw [index, found, Option.map_some]
  · refine valid.set found ?_ ?_
    · intro he inside
      rcases List.mem_cons.1 inside with rfl | inside
      · rfl
      · exact valid.placed_of_mem found inside
    · rw [List.length_cons]
      omega
  · exact flatten_set_cons_perm de found

/-- The loop over a bucket moves its entries one by one. -/
theorem rehashEntry_foldlM {idx : ℕ} (chain : List (K × V)) (valid : d.ht1.Valid hash)
    (small : ∀ exp, d.ht0.sizeExp = some exp → exp ≤ 60) (allocated₀ : d.ht0.sizeExp ≠ none)
    (allocated₁ : d.ht1.sizeExp ≠ none)
    (placed : ∀ de ∈ chain, bucketIndex (hash de.1) d.ht0.sizeExp = idx) :
    ∃ t, chain.foldlM (rehashEntry hash idx) d =
        some { d with ht0 := { d.ht0 with used := d.ht0.used - chain.length }, ht1 := t } ∧
      Receives hash d.ht1 chain t := by
  induction chain generalizing d with
  | nil => exact ⟨d.ht1, rfl, valid, rfl, .rfl⟩
  | cons de chain ih =>
    obtain ⟨t, moved, received⟩ := rehashEntry_spec valid small allocated₀ allocated₁
      (placed de List.mem_cons_self)
    obtain ⟨t', rest, received'⟩ :=
      ih (d := { d with ht0 := { d.ht0 with used := d.ht0.used - 1 }, ht1 := t })
        received.valid small allocated₀ (received.sizeExp ▸ allocated₁)
        fun de' inside => placed de' (List.mem_cons_of_mem de inside)
    refine ⟨t', ?_, received'.valid, received'.sizeExp.trans received.sizeExp, ?_⟩
    · rw [List.foldlM_cons, moved]
      refine rest.trans ?_
      rw [List.length_cons, Nat.sub_sub, Nat.add_comm 1]
    · refine received'.perm.trans ((received.perm.append_left chain).trans ?_)
      exact List.perm_middle

/-- Rehashing, which goes on in a table of the same size, if it goes on. -/
structure Rehashed (hash : K → BitVec 64) (d d' : Dict K V) : Prop extends Keeps hash d d' where
  sizeExp : d'.rehashidx ≠ none → d.rehashidx ≠ none ∧ d'.ht0.sizeExp = d.ht0.sizeExp

theorem Inv.rehashed (inv : d.Inv hash) : d.Rehashed hash d :=
  ⟨inv.keeps, fun busy => ⟨busy, rfl⟩⟩

theorem Rehashed.trans (first : d.Rehashed hash d') (second : d'.Rehashed hash d'') :
    d.Rehashed hash d'' where
  toKeeps := first.toKeeps.trans second.toKeeps
  sizeExp busy := by
    obtain ⟨busy', same⟩ := second.sizeExp busy
    obtain ⟨busy'', same'⟩ := first.sizeExp busy'
    exact ⟨busy'', same.trans same'⟩

/-- A bucket of the first table moves to the second one. -/
theorem rehashBucket_spec (inv : d.Inv hash) (busy : d.rehashidx ≠ none) {idx : ℕ}
    {chain : List (K × V)} (found : d.ht0.table[idx]? = some chain) :
    ∃ d', rehashEntriesInBucketAtIndex hash d idx = some d' ∧ d.Rehashed hash d' ∧
      d'.rehashidx = d.rehashidx ∧ d'.ht0.table = d.ht0.table.set idx [] := by
  obtain ⟨allocated₀, allocated₁⟩ := inv.rehashing busy
  obtain ⟨t, moved, received⟩ :=
    rehashEntry_foldlM chain inv.ht1 inv.ht0.small allocated₀ allocated₁
    fun de inside => inv.ht0.placed_of_mem found inside
  have emptied :
      ({ d.ht0 with table := d.ht0.table.set idx [], used := d.ht0.used - chain.length } :
      HashTable K V).Valid hash := by
    refine inv.ht0.set found (by simp) ?_
    have total := (flatten_set_nil_perm found).length_eq
    rw [List.length_append, ← inv.ht0.used] at total
    rw [List.length_nil]
    omega
  refine ⟨{ d with
    ht0 := { d.ht0 with table := d.ht0.table.set idx [], used := d.ht0.used - chain.length }
    ht1 := t }, ?_, ?_, rfl, rfl⟩
  · rw [rehashEntriesInBucketAtIndex, found, Option.bind_some, moved]
    rfl
  have perm : ((d.ht0.table.set idx []).flatten ++ t.table.flatten).Perm d.entries := by
    refine (received.perm.append_left _).trans ?_
    rw [← List.append_assoc]
    exact (flatten_set_nil_perm found).append_right _
  exact {
    inv := {
      ht0 := emptied
      ht1 := received.valid
      nodup := (perm.map Prod.fst).nodup_iff.2 inv.nodup
      idle := fun idle => absurd idle busy
      rehashing := fun _ => ⟨allocated₀, received.sizeExp ▸ allocated₁⟩
      moved := fun rehashidx begun other below => by
        have before := inv.moved rehashidx begun other below
        show (d.ht0.table.set idx [])[other]? = some []
        by_cases same : idx = other
        · subst same
          exact List.getElem?_set_self (List.getElem?_eq_some_iff.1 found).1
        · rw [List.getElem?_set_ne same, before] }
    perm
    pauses := rfl
    sizeExp := fun _ => ⟨busy, rfl⟩
    allocated := id }

/-- The index is advanced over buckets that are empty. -/
theorem Inv.advance (inv : d.Inv hash) (busy : d.rehashidx ≠ none) {idx : ℕ}
    (empty : ∀ other < idx, d.ht0.table[other]? = some []) :
    d.Rehashed hash { d with rehashidx := some idx } where
  inv := {
    ht0 := inv.ht0
    ht1 := inv.ht1
    nodup := inv.nodup
    idle := fun impossible => by cases impossible
    rehashing := fun _ => inv.rehashing busy
    moved := fun rehashidx begun => Option.some.inj begun ▸ empty }
  perm := .rfl
  pauses := rfl
  sizeExp _ := ⟨busy, rfl⟩
  allocated := id

theorem checkRehashingCompleted_spec (inv : d.Inv hash) (busy : d.rehashidx ≠ none) :
    d.Rehashed hash (checkRehashingCompleted d).1 := by
  rw [checkRehashingCompleted]
  split_ifs with left
  · exact inv.rehashed
  · have moved : d.ht0.table.flatten = [] :=
      List.eq_nil_of_length_eq_zero (inv.ht0.used.symm.trans (not_not.1 left))
    have perm : (entries { d with ht0 := d.ht1, ht1 := .reset, rehashidx := none }).Perm
        d.entries := by
      rw [entries, entries, moved]
      exact List.perm_append_comm
    exact {
      inv := {
        ht0 := inv.ht1
        ht1 := HashTable.valid_reset
        nodup := inv.nodup_of_perm perm
        idle := fun _ => rfl
        rehashing := fun impossible => absurd rfl impossible
        moved := fun _ impossible => by cases impossible }
      perm
      pauses := rfl
      sizeExp := fun impossible => absurd rfl impossible
      allocated := fun _ => (inv.rehashing busy).2 }

/-- While the old table has entries, there is a bucket to move. -/
theorem Inv.exists_bucket (inv : d.Inv hash) {rehashidx : ℕ} (begun : d.rehashidx = some rehashidx)
    (left : d.ht0.used ≠ 0) :
    ∃ idx de chain, d.ht0.table[idx]? = some (de :: chain) ∧ rehashidx ≤ idx := by
  rw [inv.ht0.used] at left
  obtain ⟨he, member⟩ := List.exists_mem_of_ne_nil _ (mt List.length_eq_zero_iff.2 left)
  obtain ⟨idx, bucket, found, inside⟩ := CodeNotes.Buckets.mem_flatten_iff.1 member
  obtain ⟨de, chain, rfl⟩ := List.exists_cons_of_ne_nil (List.ne_nil_of_mem inside)
  refine ⟨idx, de, chain, found, ?_⟩
  by_contra below
  have empty := inv.moved rehashidx begun idx (not_le.1 below)
  rw [found] at empty
  cases empty

/-- The inner loop stops at the next bucket with entries, or before it. -/
theorem skipEmpty_spec {table : List (List (K × V))} {target : ℕ} {de : K × V}
    {chain : List (K × V)}
    (found : table[target]? = some (de :: chain)) :
    ∀ visits idx, idx ≤ target → ∃ idx' left,
      skipEmpty table (visits + 1) idx = some (idx', left) ∧
        (∀ other, idx ≤ other → other < idx' → table[other]? = some []) ∧
        (left ≠ 0 → idx ≤ idx' ∧ ∃ bucket, table[idx']? = some bucket) := by
  intro visits
  induction visits with
  | zero =>
    intro idx before
    obtain ⟨bucket, here⟩ : ∃ bucket, table[idx]? = some bucket :=
      ⟨_, List.getElem?_eq_getElem (before.trans_lt (List.getElem?_eq_some_iff.1 found).1)⟩
    rw [skipEmpty, here, Option.bind_some]
    cases bucket with
    | nil =>
      refine ⟨idx + 1, 0, rfl, ?_, fun left => absurd rfl left⟩
      intro other after below
      rwa [show other = idx by omega]
    | cons he rest =>
      exact ⟨idx, 1, rfl, fun other after below => absurd below (not_lt.2 after),
        fun _ => ⟨le_rfl, _, here⟩⟩
  | succ visits ih =>
    intro idx before
    obtain ⟨bucket, here⟩ : ∃ bucket, table[idx]? = some bucket :=
      ⟨_, List.getElem?_eq_getElem (before.trans_lt (List.getElem?_eq_some_iff.1 found).1)⟩
    rw [skipEmpty, here, Option.bind_some]
    cases bucket with
    | nil =>
      have next : idx + 1 ≤ target := by
        rcases before.lt_or_eq with before | rfl
        · exact before
        · rw [found] at here
          cases here
      obtain ⟨idx', left, skipped, empty, reached⟩ := ih (idx + 1) next
      refine ⟨idx', left, skipped, ?_, fun remaining => ?_⟩
      · intro other after below
        rcases after.lt_or_eq with after | rfl
        · exact empty other after below
        · exact here
      · obtain ⟨beyond, bucket⟩ := reached remaining
        exact ⟨(Nat.le_succ idx).trans beyond, bucket⟩
    | cons he rest =>
      exact ⟨idx, _, rfl, fun other after below => absurd below (not_lt.2 after),
        fun _ => ⟨le_rfl, _, here⟩⟩

theorem rehashLoop_spec : ∀ n visits {d : Dict K V}, d.Inv hash → d.rehashidx ≠ none → visits ≠ 0 →
    ∃ d' more, rehashLoop hash n visits d = some (d', more) ∧ d.Rehashed hash d' := by
  intro n
  induction n with
  | zero =>
    intro visits d inv busy _
    exact ⟨_, _, rfl, checkRehashingCompleted_spec inv busy⟩
  | succ n ih =>
    intro visits d inv busy some_visits
    rw [rehashLoop]
    split_ifs with finished
    · exact ⟨_, _, rfl, checkRehashingCompleted_spec inv busy⟩
    obtain ⟨rehashidx, begun⟩ := Option.ne_none_iff_exists'.1 busy
    obtain ⟨target, de, chain, found, before⟩ := inv.exists_bucket begun finished
    have inside : d.ht0.size > rehashidx := before.trans_lt (inv.ht0.lt_size found)
    obtain ⟨visits, rfl⟩ := Nat.exists_eq_succ_of_ne_zero some_visits
    obtain ⟨idx, left, skipped, empty, reached⟩ := skipEmpty_spec found visits rehashidx before
    have all_empty : ∀ other < idx, d.ht0.table[other]? = some [] := by
      intro other below
      by_cases moved : other < rehashidx
      · exact inv.moved rehashidx begun other moved
      · exact empty other (not_lt.1 moved) below
    rw [begun, Option.bind_some, if_pos inside, skipped, Option.bind_some]
    dsimp only
    split_ifs with gave_up
    · exact ⟨_, true, rfl, inv.advance busy all_empty⟩
    obtain ⟨-, bucket, here⟩ := reached gave_up
    obtain ⟨d₁, moved, rehashed, same, table⟩ := rehashBucket_spec inv busy here
    have advanced : d₁.Rehashed hash { d₁ with rehashidx := some (idx + 1) } := by
      refine rehashed.inv.advance (same ▸ busy) ?_
      intro other below
      rw [table]
      rcases (Nat.lt_succ_iff.1 below).lt_or_eq with below | rfl
      · rw [List.getElem?_set_ne below.ne', all_empty other below]
      · exact List.getElem?_set_self (List.getElem?_eq_some_iff.1 here).1
    obtain ⟨d', more, looped, rest⟩ := ih left advanced.inv (Option.some_ne_none _) gave_up
    rw [moved, Option.bind_some, looped]
    exact ⟨d', more, rfl, (rehashed.trans advanced).trans rest⟩

theorem rehash_spec (policy : Policy) (inv : d.Inv hash) (n : ℕ) :
    ∃ d' more, rehash policy hash d n = some (d', more) ∧ d.Rehashed hash d' := by
  rw [rehash]
  split_ifs with refused
  · exact ⟨d, false, rfl, inv.rehashed⟩
  have busy : d.rehashidx ≠ none := fun idle => refused (Or.inr (Or.inl idle))
  cases n with
  | zero => exact ⟨_, _, rfl, checkRehashingCompleted_spec inv busy⟩
  | succ n => exact rehashLoop_spec (n + 1) _ inv busy (by omega)

theorem rehashStep_spec (policy : Policy) (inv : d.Inv hash) :
    ∃ d', rehashStep policy hash d = some d' ∧ d.Rehashed hash d' := by
  rw [rehashStep]
  split_ifs
  · obtain ⟨d', more, rehashed, spec⟩ := rehash_spec policy inv 1
    rw [rehashed]
    exact ⟨d', rfl, spec⟩
  · exact ⟨d, rfl, inv.rehashed⟩

theorem bucketRehash_spec (policy : Policy) (inv : d.Inv hash) {idx : ℕ} {chain : List (K × V)}
    (found : d.ht0.table[idx]? = some chain) :
    ∃ d', bucketRehash policy hash d idx = some d' ∧ d.Rehashed hash d' := by
  rw [bucketRehash]
  split_ifs with refused
  · exact ⟨d, rfl, inv.rehashed⟩
  have busy : d.rehashidx ≠ none := fun idle => refused (Or.inr (Or.inr (Or.inl idle)))
  obtain ⟨d₁, moved, rehashed, same, -⟩ := rehashBucket_spec inv busy found
  have completed := checkRehashingCompleted_spec rehashed.inv (same ▸ busy)
  rw [moved]
  exact ⟨_, rfl, rehashed.trans completed⟩

theorem rehashOnAccess_spec (policy : Policy) (inv : d.Inv hash) (h : BitVec 64) :
    ∃ d', rehashOnAccess policy hash d (bucketIndex h d.ht0.sizeExp) = some d' ∧
      d.Rehashed hash d' := by
  rw [rehashOnAccess]
  split
  · exact ⟨d, rfl, inv.rehashed⟩
  rename_i rehashidx begun
  split_ifs with ahead
  · have busy : d.rehashidx ≠ none := begun ▸ Option.some_ne_none rehashidx
    obtain ⟨chain, found⟩ := inv.ht0.exists_chain (inv.rehashing busy).1 h
    rw [found, Option.bind_some]
    cases chain with
    | nil => exact rehashStep_spec policy inv
    | cons de chain => exact bucketRehash_spec policy inv found
  · exact rehashStep_spec policy inv

end Dict

end CodeNotes.RedisServer
