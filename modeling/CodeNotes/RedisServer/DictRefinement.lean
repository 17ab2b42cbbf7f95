import Mathlib.Data.Finmap
import CodeNotes.Lib.Run
import CodeNotes.RedisServer.DictInvariant

/-!
# The hash table is a finite map

A search finds the entry of a key in whichever table and bucket it is (`search_spec`), and the
updates add, change or remove that one entry.  `Represents` relates a dictionary to the finite map
of its entries, and every operation has one lemma about it.  They are put together for any sequence
of operations under any resizing policies: the answers are those of the map, and no assertion fails
and no read leaves a table (`dict_refines_map`).
-/

namespace CodeNotes.RedisServer

open Buckets Run

namespace Dict

variable {K V : Type} {hash : K → BitVec 64} {d d' : Dict K V}

/-! ### Searching -/

/-- The entry is the first one of its key in its bucket. -/
def Located (d : Dict K V) (found : Found K V) : Prop :=
  ∃ before after,
    (d.ht found.table).table[found.idx]? = some (before ++ found.entry :: after) ∧
      ∀ he ∈ before, he.1 ≠ found.entry.1

/-- What a search may answer. -/
def Finds (d : Dict K V) (key : K) : Option (Found K V) → Prop
  | none => ∀ val, (key, val) ∉ d.entries
  | some found => d.Located found ∧ found.entry.1 = key

theorem mem_entries {de : K × V} :
    de ∈ d.entries ↔ de ∈ (d.ht 0).table.flatten ∨ de ∈ (d.ht 1).table.flatten :=
  List.mem_append

theorem mem_entries_of_mem {i : Fin 2} {de : K × V} (member : de ∈ (d.ht i).table.flatten) :
    de ∈ d.entries := by
  match i with
  | 0 => exact mem_entries.2 (Or.inl member)
  | 1 => exact mem_entries.2 (Or.inr member)

theorem Located.mem_entries {found : Found K V} (located : d.Located found) :
    found.entry ∈ d.entries := by
  obtain ⟨before, after, chain, -⟩ := located
  refine mem_entries_of_mem (i := found.table) (Buckets.mem_flatten_iff.2 ⟨_, _, chain, ?_⟩)
  exact List.mem_append_right before List.mem_cons_self

section Search

variable [DecidableEq K]

theorem searchTable_spec (inv : d.Inv hash) {i : Fin 2} (allocated : (d.ht i).sizeExp ≠ none)
    (key : K) :
    ∃ found, searchTable hash d i key = some found ∧
      match found with
      | none => ∀ val, (key, val) ∉ (d.ht i).table.flatten
      | some found => d.Located found ∧ found.entry.1 = key := by
  obtain ⟨chain, bucket⟩ := (inv.ht i).exists_chain allocated (hash key)
  rw [searchTable, bucket, Option.map_some]
  refine ⟨_, rfl, ?_⟩
  cases search : chain.find? fun he => he.1 = key with
  | none =>
    intro val member
    rw [(inv.ht i).mem_flatten_iff bucket] at member
    simpa using List.find?_eq_none.1 search _ member
  | some he =>
    obtain ⟨matches_key, before, after, rfl, others⟩ := List.find?_eq_some_iff_append.1 search
    have same : he.1 = key := of_decide_eq_true matches_key
    refine ⟨⟨before, after, bucket, ?_⟩, same⟩
    intro other earlier
    simpa [same] using others other earlier

/-- The search may start in the second table only if the first one is known not to have the key. -/
theorem search_spec (inv : d.Inv hash) (allocated : d.ht0.sizeExp ≠ none) {idx : ℕ} (key : K)
    (skip : ∀ rehashidx, d.rehashidx = some rehashidx → idx < rehashidx →
      bucketIndex (hash key) d.ht0.sizeExp < rehashidx) :
    ∃ found, search hash d idx key = some found ∧ d.Finds key found := by
  rw [search]
  by_cases skipped : ∃ rehashidx ∈ d.rehashidx, idx < rehashidx
  · rw [if_pos skipped]
    obtain ⟨rehashidx, begun, below⟩ := skipped
    have busy : d.rehashidx ≠ none := fun idle => by rw [idle] at begun; cases begun
    have empty := inv.moved rehashidx begun _ (skip rehashidx begun below)
    obtain ⟨found, searched, spec⟩ :=
      searchTable_spec inv (i := 1) (inv.rehashing busy).2 key
    refine ⟨found, searched, ?_⟩
    cases found with
    | none =>
      intro val member
      rcases mem_entries.1 member with member | member
      · rw [show d.ht 0 = d.ht0 from rfl, inv.ht0.mem_flatten_iff empty] at member
        cases member
      · exact spec val member
    | some found => exact spec
  · obtain ⟨found, searched, spec⟩ := searchTable_spec inv (i := 0) allocated key
    rw [if_neg skipped, searched, Option.bind_some]
    cases found with
    | some found => exact ⟨_, rfl, spec⟩
    | none =>
      by_cases idle : d.rehashidx = none
      · rw [if_pos idle]
        refine ⟨none, rfl, fun val member => ?_⟩
        rw [inv.entries_idle idle] at member
        exact spec val member
      · rw [if_neg idle]
        obtain ⟨found, searched', spec'⟩ := searchTable_spec inv (i := 1) (inv.rehashing idle).2 key
        refine ⟨found, searched', ?_⟩
        cases found with
        | none => exact fun val member => (mem_entries.1 member).elim (spec val) (spec' val)
        | some found => exact spec'

/-- The index computed before rehashing is still good for a search. -/
theorem Rehashed.search_spec (rehashed : d.Rehashed hash d') (allocated : d.ht0.sizeExp ≠ none)
    (key : K) :
    ∃ found, search hash d' (bucketIndex (hash key) d.ht0.sizeExp) key = some found ∧
      d'.Finds key found := by
  refine Dict.search_spec rehashed.inv (rehashed.allocated allocated) key ?_
  intro rehashidx begun below
  rwa [(rehashed.sizeExp (begun ▸ Option.some_ne_none _)).2]

end Search

/-! ### Updates of one bucket -/

/-- A bucket is exchanged for another one. -/
def exchange (d : Dict K V) (i : Fin 2) (idx : ℕ) (chain : List (K × V)) (used : ℕ) : Dict K V :=
  d.setHt i { d.ht i with table := (d.ht i).table.set idx chain, used }

theorem entries_exchange {i : Fin 2} {idx : ℕ} {chain : List (K × V)} (chain' : List (K × V))
    (used : ℕ) (found : (d.ht i).table[idx]? = some chain) :
    ((d.exchange i idx chain' used).entries ++ chain).Perm (d.entries ++ chain') := by
  have perm := flatten_set_perm chain' found
  match i with
  | 0 =>
    show ((d.ht0.table.set idx chain').flatten ++ d.ht1.table.flatten ++ chain).Perm
      (d.ht0.table.flatten ++ d.ht1.table.flatten ++ chain')
    refine (append_right_comm_perm _ _ _).trans ((perm.append_right _).trans ?_)
    exact append_right_comm_perm _ _ _
  | 1 =>
    show (d.ht0.table.flatten ++ (d.ht1.table.set idx chain').flatten ++ chain).Perm
      (d.ht0.table.flatten ++ d.ht1.table.flatten ++ chain')
    rw [List.append_assoc, List.append_assoc]
    exact perm.append_left _

theorem frame_exchange (d : Dict K V) (i : Fin 2) (idx : ℕ) (chain : List (K × V)) (used : ℕ) :
    d.Frame (d.exchange i idx chain used) := by
  match i with
  | 0 => exact ⟨rfl, id⟩
  | 1 => exact ⟨rfl, id⟩

/-- The bucket is one that entries may be in. -/
def InUse (d : Dict K V) (i : Fin 2) (idx : ℕ) : Prop :=
  match i with
  | 0 => ∀ rehashidx, d.rehashidx = some rehashidx → rehashidx ≤ idx
  | 1 => d.rehashidx ≠ none

theorem Inv.exchange (inv : d.Inv hash) {i : Fin 2} {idx used : ℕ} {chain chain' : List (K × V)}
    (found : (d.ht i).table[idx]? = some chain) (inUse : d.InUse i idx)
    (placed : ∀ de ∈ chain', bucketIndex (hash de.1) (d.ht i).sizeExp = idx)
    (count : used + chain.length = (d.ht i).used + chain'.length)
    (nodup : ((d.exchange i idx chain' used).entries.map Prod.fst).Nodup) :
    (d.exchange i idx chain' used).Inv hash := by
  have valid := (inv.ht i).set found placed count
  match i with
  | 0 =>
    exact {
      ht0 := valid
      ht1 := inv.ht1
      nodup
      idle := inv.idle
      rehashing := inv.rehashing
      moved := fun rehashidx begun other below => by
        have same := inv.moved rehashidx begun other below
        have beyond : idx ≠ other := fun same => by
          have := inUse rehashidx begun
          omega
        show (d.ht0.table.set idx chain')[other]? = some []
        rw [List.getElem?_set_ne beyond, same] }
  | 1 =>
    exact {
      ht0 := inv.ht0
      ht1 := valid
      nodup
      idle := fun idle => absurd idle inUse
      rehashing := inv.rehashing
      moved := inv.moved }

/-- A bucket with an entry is in use. -/
theorem Inv.inUse_of_mem (inv : d.Inv hash) {i : Fin 2} {idx : ℕ} {chain : List (K × V)}
    (found : (d.ht i).table[idx]? = some chain) (inhabited : chain ≠ []) : d.InUse i idx := by
  match i with
  | 0 =>
    intro rehashidx begun
    by_contra below
    have empty := inv.moved rehashidx begun idx (not_le.1 below)
    exact inhabited (Option.some.inj (found.symm.trans empty))
  | 1 =>
    intro idle
    rw [show d.ht 1 = d.ht1 from rfl, inv.idle idle] at found
    cases found

/-- A new entry is put in front of its bucket. -/
theorem insertAtPosition_spec (inv : d.Inv hash) (allocated : d.ht0.sizeExp ≠ none) {key : K}
    (val : V) (fresh : ∀ val, (key, val) ∉ d.entries) :
    ∃ d', d.insertAtPosition (key, val) d.insertTable
        (bucketIndex (hash key) (d.ht d.insertTable).sizeExp) = some d' ∧
      d'.Inv hash ∧ d.Frame d' ∧ d'.entries.Perm ((key, val) :: d.entries) := by
  have ready : (d.ht d.insertTable).sizeExp ≠ none ∧
      d.InUse d.insertTable (bucketIndex (hash key) (d.ht d.insertTable).sizeExp) := by
    by_cases idle : d.rehashidx = none
    · rw [insertTable, if_neg (not_not.2 idle)]
      refine ⟨allocated, fun rehashidx begun => ?_⟩
      rw [idle] at begun
      cases begun
    · rw [insertTable, if_pos idle]
      exact ⟨(inv.rehashing idle).2, idle⟩
  obtain ⟨chain, bucket⟩ := (inv.ht d.insertTable).exists_chain ready.1 (hash key)
  have exchanged := entries_exchange ((key, val) :: chain) ((d.ht d.insertTable).used + 1) bucket
  have perm : (d.exchange d.insertTable (bucketIndex (hash key) (d.ht d.insertTable).sizeExp)
      ((key, val) :: chain) ((d.ht d.insertTable).used + 1)).entries.Perm
      ((key, val) :: d.entries) :=
    (List.perm_append_right_iff chain).1 (exchanged.trans List.perm_middle)
  refine ⟨d.exchange d.insertTable (bucketIndex (hash key) (d.ht d.insertTable).sizeExp)
      ((key, val) :: chain) ((d.ht d.insertTable).used + 1), ?_, ?_, frame_exchange _ _ _ _ _, perm⟩
  · rw [insertAtPosition, if_pos rfl, bucket, Option.map_some]
    rfl
  · refine inv.exchange bucket ready.2 ?_ ?_ ?_
    · intro de inside
      rcases List.mem_cons.1 inside with rfl | inside
      · rfl
      · exact (inv.ht d.insertTable).placed_of_mem bucket inside
    · rw [List.length_cons]
      omega
    · refine (perm.map Prod.fst).nodup_iff.2 (List.nodup_cons.2 ⟨?_, inv.nodup⟩)
      intro member
      obtain ⟨⟨_, val'⟩, entry, rfl⟩ := List.mem_map.1 member
      exact fresh val' entry

section Updates

variable [DecidableEq K]

theorem chainSetVal_append (key : K) (val : V) {before : List (K × V)}
    (others : ∀ he ∈ before, he.1 ≠ key) (old : V) (after : List (K × V)) :
    chainSetVal key val (before ++ (key, old) :: after) = before ++ (key, val) :: after := by
  induction before with
  | nil => exact if_pos rfl
  | cons he before ih =>
    rw [List.forall_mem_cons] at others
    rw [List.cons_append, chainSetVal, if_neg others.1, ih others.2, List.cons_append]

theorem eraseP_append_cons {before : List (K × V)} {entry : K × V}
    (others : ∀ he ∈ before, he.1 ≠ entry.1) (after : List (K × V)) :
    (before ++ entry :: after).eraseP (fun he => he.1 = entry.1) = before ++ after := by
  rw [List.eraseP_append_right _ (by simpa using others), List.eraseP_cons_of_pos (by simp)]

/-- The entry that was found is taken out. -/
theorem unlink_spec (inv : d.Inv hash) {found : Found K V} (located : d.Located found) :
    ∃ d', d.unlink found = some d' ∧ d'.Inv hash ∧ d.Frame d' ∧
      (found.entry :: d'.entries).Perm d.entries := by
  obtain ⟨before, after, bucket, others⟩ := located
  have exchanged := entries_exchange (before ++ after) ((d.ht found.table).used - 1) bucket
  have perm : (found.entry ::
      (d.exchange found.table found.idx (before ++ after)
        ((d.ht found.table).used - 1)).entries).Perm d.entries := by
    refine (List.perm_append_right_iff (before ++ after)).1 (List.Perm.trans ?_ exchanged)
    refine List.Perm.trans ?_ (List.perm_middle.symm.append_left _)
    exact List.perm_middle.symm
  refine ⟨d.exchange found.table found.idx (before ++ after) ((d.ht found.table).used - 1), ?_, ?_,
    frame_exchange _ _ _ _ _, perm⟩
  · rw [unlink, bucket, Option.map_some, eraseP_append_cons others]
    rfl
  · refine inv.exchange bucket (inv.inUse_of_mem bucket (by simp)) ?_ ?_ ?_
    · intro de inside
      refine (inv.ht found.table).placed_of_mem bucket ?_
      rcases List.mem_append.1 inside with inside | inside
      · exact List.mem_append_left _ inside
      · exact List.mem_append_right _ (List.mem_cons_of_mem _ inside)
    · have total := (flatten_set_nil_perm bucket).length_eq
      rw [List.length_append, ← (inv.ht found.table).used] at total
      simp only [List.length_append, List.length_cons] at total ⊢
      omega
    · have keys := (perm.map Prod.fst).nodup_iff.2 inv.nodup
      exact (List.nodup_cons.1 keys).2

/-- The entry that was found gets another value. -/
theorem setVal_spec (inv : d.Inv hash) {found : Found K V} (located : d.Located found) (val : V) :
    ∃ d', d.setVal found val = some d' ∧ d'.Inv hash ∧ d.Frame d' ∧
      (found.entry :: d'.entries).Perm ((found.entry.1, val) :: d.entries) := by
  obtain ⟨before, after, bucket, others⟩ := located
  have exchanged := entries_exchange (before ++ (found.entry.1, val) :: after)
    (d.ht found.table).used bucket
  have perm : (found.entry ::
      (d.exchange found.table found.idx (before ++ (found.entry.1, val) :: after)
        (d.ht found.table).used).entries).Perm ((found.entry.1, val) :: d.entries) := by
    refine (List.perm_append_right_iff (before ++ after)).1 ?_
    refine List.Perm.trans ?_ (exchanged.trans ?_)
    · refine List.Perm.trans ?_ (List.perm_middle.symm.append_left _)
      exact List.perm_middle.symm
    · exact (List.perm_middle.append_left _).trans List.perm_middle
  refine ⟨d.exchange found.table found.idx (before ++ (found.entry.1, val) :: after)
    (d.ht found.table).used, ?_, ?_, frame_exchange _ _ _ _ _, perm⟩
  · rw [setVal, bucket, Option.map_some, chainSetVal_append _ _ others]
    rfl
  · refine inv.exchange bucket (inv.inUse_of_mem bucket (by simp)) ?_ (by simp) ?_
    · intro de inside
      rcases List.mem_append.1 inside with inside | inside
      · exact (inv.ht found.table).placed_of_mem bucket (List.mem_append_left _ inside)
      · rcases List.mem_cons.1 inside with rfl | inside
        · have member : found.entry ∈ before ++ found.entry :: after := by simp
          have placed := (inv.ht found.table).placed_of_mem bucket member
          exact placed
        · exact (inv.ht found.table).placed_of_mem bucket
            (List.mem_append_right _ (List.mem_cons_of_mem _ inside))
    · have keys : (found.entry.1 :: (d.exchange found.table found.idx
          (before ++ (found.entry.1, val) :: after)
            (d.ht found.table).used).entries.map Prod.fst).Perm
          (found.entry.1 :: d.entries.map Prod.fst) := perm.map Prod.fst
      exact ((List.perm_cons _).1 keys).nodup_iff.2 inv.nodup

end Updates

/-! ### The finite map of the entries -/

structure Represents (hash : K → BitVec 64) (d : Dict K V) [DecidableEq K]
    (m : Finmap fun _ : K => V) : Prop where
  inv : d.Inv hash
  lookup : ∀ key val, (key, val) ∈ d.entries ↔ m.lookup key = some val

section Operations

variable [DecidableEq K] {m : Finmap fun _ : K => V}

theorem represents_create : (create : Dict K V).Represents hash ∅ where
  inv := inv_create
  lookup key val := by
    rw [Finmap.lookup_empty]
    simp [entries, create, HashTable.reset]

theorem Represents.keeps (represents : d.Represents hash m) (keeps : d.Keeps hash d') :
    d'.Represents hash m where
  inv := keeps.inv
  lookup key val := by rw [keeps.perm.mem_iff, represents.lookup]

theorem Represents.lookup_eq_none (represents : d.Represents hash m) {key : K}
    (absent : ∀ val, (key, val) ∉ d.entries) : m.lookup key = none := by
  rw [Option.eq_none_iff_forall_ne_some]
  exact fun val present => absent val ((represents.lookup key val).2 present)

/-- The map knows the answer of a search. -/
theorem Represents.finds (represents : d.Represents hash m) {key : K} {found : Option (Found K V)}
    (finds : d.Finds key found) :
    found.map Found.entry = (m.lookup key).map fun val => (key, val) := by
  cases found with
  | none => rw [represents.lookup_eq_none finds, Option.map_none, Option.map_none]
  | some found =>
    obtain ⟨located, rfl⟩ := finds
    rw [(represents.lookup _ found.entry.2).1 located.mem_entries]
    rfl

theorem Represents.size_eq (represents : d.Represents hash m) : d.size = m.keys.card := by
  have keys : m.keys = (d.entries.map Prod.fst).toFinset := by
    ext key
    rw [Finmap.mem_keys, Finmap.mem_iff, List.mem_toFinset, List.mem_map]
    constructor
    · rintro ⟨val, present⟩
      exact ⟨(key, val), (represents.lookup key val).2 present, rfl⟩
    · rintro ⟨⟨_, val⟩, member, rfl⟩
      exact ⟨val, (represents.lookup _ val).1 member⟩
  rw [keys, List.toFinset_card_of_nodup represents.inv.nodup, List.length_map,
    represents.inv.size_eq]

theorem Represents.insert (represents : d.Represents hash m) {key : K} {val : V} (inv : d'.Inv hash)
    (perm : d'.entries.Perm ((key, val) :: d.entries)) (fresh : ∀ val, (key, val) ∉ d.entries) :
    d'.Represents hash (m.insert key val) where
  inv := inv
  lookup key' val' := by
    rw [perm.mem_iff, List.mem_cons, Prod.mk.injEq]
    by_cases same : key' = key
    · rw [same, Finmap.lookup_insert, Option.some.injEq, or_iff_left (fresh val')]
      simp [eq_comm]
    · rw [Finmap.lookup_insert_of_ne _ same, ← represents.lookup]
      simp [same]

theorem Represents.overwrite (represents : d.Represents hash m) {entry : K × V} {val : V}
    (inv : d'.Inv hash) (member : entry ∈ d.entries)
    (perm : (entry :: d'.entries).Perm ((entry.1, val) :: d.entries)) :
    d'.Represents hash (m.insert entry.1 val) where
  inv := inv
  lookup key val' := by
    have both : (key, val') = entry ∨ (key, val') ∈ d'.entries ↔
        (key, val') = (entry.1, val) ∨ (key, val') ∈ d.entries := by
      rw [← List.mem_cons, ← List.mem_cons, perm.mem_iff]
    by_cases same : key = entry.1
    · -- the new value is the only one that the key has afterwards
      have changed : (entry.1, val) ∈ d'.entries := by
        by_cases unchanged : (entry.1, val) = entry
        · rw [unchanged, List.perm_cons] at perm
          rwa [unchanged, perm.mem_iff]
        · exact (List.mem_cons.1 (perm.mem_iff.2 List.mem_cons_self)).resolve_left unchanged
      subst same
      rw [Finmap.lookup_insert, Option.some.injEq]
      constructor
      · exact inv.eq_of_mem changed
      · rintro rfl
        exact changed
    · have other : (key, val') ≠ entry := fun equal => same (congrArg Prod.fst equal)
      have other' : (key, val') ≠ (entry.1, val) := fun equal => same (congrArg Prod.fst equal)
      rw [or_iff_right other, or_iff_right other'] at both
      rw [Finmap.lookup_insert_of_ne _ same, both, represents.lookup]

theorem Represents.erase (represents : d.Represents hash m) {entry : K × V} (inv : d'.Inv hash)
    (perm : (entry :: d'.entries).Perm d.entries) : d'.Represents hash (m.erase entry.1) where
  inv := inv
  lookup key val := by
    have keys := (perm.map Prod.fst).nodup_iff.2 represents.inv.nodup
    have gone : (entry.1, val) ∉ d'.entries := fun member =>
      (List.nodup_cons.1 keys).1 (List.mem_map.2 ⟨_, member, rfl⟩)
    by_cases same : key = entry.1
    · rw [same, Finmap.lookup_erase]
      simpa using gone
    · have other : (key, val) ≠ entry := fun equal => same (congrArg Prod.fst equal)
      rw [Finmap.lookup_erase_ne same, ← represents.lookup, ← perm.mem_iff, List.mem_cons,
        or_iff_right other]

theorem find_spec (policy : Policy) (represents : d.Represents hash m) (key : K) :
    ∃ d', find policy hash d key = some (d', (m.lookup key).map fun val => (key, val)) ∧
      d'.Represents hash m ∧ d.Frame d' := by
  rw [find]
  split_ifs with empty
  · refine ⟨d, ?_, represents, .refl d⟩
    rw [represents.inv.size_eq, List.length_eq_zero_iff] at empty
    have absent : ∀ val, (key, val) ∉ d.entries := fun val => empty ▸ List.not_mem_nil
    rw [represents.lookup_eq_none absent, Option.map_none]
  · obtain ⟨d', rehashed, spec⟩ := rehashOnAccess_spec policy represents.inv (hash key)
    obtain ⟨found, searched, finds⟩ := spec.search_spec (represents.inv.allocated empty) key
    have represents' := represents.keeps spec.toKeeps
    refine ⟨d', ?_, represents', spec.toFrame⟩
    dsimp only
    rw [rehashed, Option.bind_some, searched, Option.map_some, represents'.finds finds]

/-- The position is that of the key, or the one to insert it at. -/
theorem findPositionForInsert_spec (policy : Policy) (inv : d.Inv hash) (ready : d.Ready)
    (key : K) :
    ∃ d' position, findPositionForInsert policy hash d key = some (d', position) ∧
      d.Keeps hash d' ∧
      match position with
      | .inl existing => d'.Located existing ∧ existing.entry.1 = key
      | .inr (table, idx) => table = d'.insertTable ∧
          idx = bucketIndex (hash key) (d'.ht d'.insertTable).sizeExp ∧
          d'.ht0.sizeExp ≠ none ∧ ∀ val, (key, val) ∉ d'.entries := by
  obtain ⟨d₁, rehashed, spec⟩ := rehashOnAccess_spec policy inv (hash key)
  obtain ⟨d', expanded, resized, allocated⟩ :=
    autoExpand_spec policy spec.inv (spec.toFrame.ready ready)
  have skip : ∀ rehashidx, d'.rehashidx = some rehashidx →
      bucketIndex (hash key) d.ht0.sizeExp < rehashidx →
      bucketIndex (hash key) d'.ht0.sizeExp < rehashidx := by
    intro rehashidx begun below
    rcases resized.fresh with rfl | fresh
    · rwa [(spec.sizeExp (begun ▸ Option.some_ne_none _)).2]
    · rw [fresh rehashidx begun] at below
      exact absurd below (Nat.not_lt_zero _)
  obtain ⟨found, searched, finds⟩ := Dict.search_spec resized.inv allocated key skip
  rw [findPositionForInsert, rehashed, Option.bind_some, expanded, Option.bind_some, searched,
    Option.map_some]
  have keeps := spec.toKeeps.trans resized.toKeeps
  cases found with
  | none => exact ⟨d', _, rfl, keeps, rfl, rfl, allocated, finds⟩
  | some existing => exact ⟨d', _, rfl, keeps, finds⟩

/-- A key that is there stays as it is, and is found; another one is inserted. -/
theorem addRaw_spec (policy : Policy) (represents : d.Represents hash m) (ready : d.Ready) (key : K)
    (val : V) :
    ∃ d' existing, addRaw policy hash d key val = some (d', existing) ∧ d.Frame d' ∧
      match existing with
      | none => m.lookup key = none ∧ d'.Represents hash (m.insert key val)
      | some found => d'.Represents hash m ∧ d'.Located found ∧ found.entry.1 = key := by
  obtain ⟨d₁, position, found, keeps, spec⟩ :=
    findPositionForInsert_spec policy represents.inv ready key
  have represents₁ := represents.keeps keeps
  rw [addRaw, found, Option.bind_some]
  cases position with
  | inl existing => exact ⟨d₁, some existing, rfl, keeps.toFrame, represents₁, spec⟩
  | inr position =>
    obtain ⟨table, idx⟩ := position
    obtain ⟨rfl, rfl, allocated, fresh⟩ := spec
    obtain ⟨d', inserted, inv, frame, perm⟩ :=
      insertAtPosition_spec represents₁.inv allocated val fresh
    refine ⟨d', none, by dsimp only; rw [inserted]; rfl, keeps.toFrame.trans frame, ?_,
      represents₁.insert inv perm fresh⟩
    exact represents₁.lookup_eq_none fresh

/-- With automatic resizing paused before there is a table, the source reads from a null pointer. -/
theorem addRaw_eq_none (policy : Policy) (inv : d.Inv hash) (unready : ¬ d.Ready) (key : K)
    (val : V) :
    addRaw policy hash d key val = none := by
  obtain ⟨paused, unallocated⟩ := Classical.not_imp.1 unready
  rw [not_not] at unallocated
  have idle : d.rehashidx = none := by
    by_contra busy
    exact (inv.rehashing busy).1 unallocated
  have table : d.ht0.table = [] := by
    apply List.eq_nil_of_length_eq_zero
    rw [inv.ht0.length, HashTable.size, unallocated]
    rfl
  have unsearched : search hash d (bucketIndex (hash key) d.ht0.sizeExp) key = none := by
    rw [search, if_neg (by simp [idle]), searchTable, ht, table]
    rfl
  rw [addRaw, findPositionForInsert, rehashOnAccess, idle]
  dsimp only
  rw [Option.bind_some, autoExpand, if_pos paused, Option.bind_some, unsearched]
  rfl

theorem Represents.lookup_located (represents : d.Represents hash m) {found : Found K V}
    (located : d.Located found) : m.lookup found.entry.1 = some found.entry.2 :=
  (represents.lookup _ _).1 located.mem_entries

theorem add_spec (policy : Policy) (represents : d.Represents hash m) (ready : d.Ready) (key : K)
    (val : V) :
    ∃ d', add policy hash d key val = some (d', (m.lookup key).isNone) ∧
      d'.Represents hash (if (m.lookup key).isNone then m.insert key val else m) ∧ d.Frame d' := by
  obtain ⟨d', existing, added, frame, spec⟩ := addRaw_spec policy represents ready key val
  refine ⟨d', ?_⟩
  rw [add, added, Option.map_some]
  cases existing with
  | none =>
    rw [spec.1]
    exact ⟨rfl, spec.2, frame⟩
  | some found =>
    obtain ⟨represents', located, rfl⟩ := spec
    rw [represents'.lookup_located located]
    exact ⟨rfl, represents', frame⟩

theorem replace_spec (policy : Policy) (represents : d.Represents hash m) (ready : d.Ready)
    (key : K) (val : V) :
    ∃ d', replace policy hash d key val = some (d', (m.lookup key).isNone) ∧
      d'.Represents hash (m.insert key val) ∧ d.Frame d' := by
  obtain ⟨d₁, existing, added, frame₁, spec⟩ := addRaw_spec policy represents ready key val
  rw [replace, added, Option.bind_some]
  cases existing with
  | none =>
    refine ⟨d₁, ?_, spec.2, frame₁⟩
    rw [spec.1]
    rfl
  | some found =>
    obtain ⟨represents₁, located, rfl⟩ := spec
    obtain ⟨d', changed, inv, frame, perm⟩ := setVal_spec represents₁.inv located val
    refine ⟨d', ?_, represents₁.overwrite inv located.mem_entries perm, frame₁.trans frame⟩
    dsimp only
    rw [changed, represents₁.lookup_located located]
    rfl

/-- The key was looked for, and its entry is taken out, after which the table may shrink. -/
theorem unlink_found_spec (policy : Policy) (represents : d.Represents hash m) {found : Found K V}
    (located : d.Located found) :
    ∃ d₁ d', d.unlink found = some d₁ ∧ autoShrink policy d₁ = some d' ∧
      d'.Represents hash (m.erase found.entry.1) ∧ d.Frame d' := by
  obtain ⟨d₁, unlinked, inv, frame, perm⟩ := unlink_spec represents.inv located
  obtain ⟨d', shrunk, resized⟩ := autoShrink_spec policy inv
  exact ⟨d₁, d', unlinked, shrunk, (represents.erase inv perm).keeps resized.toKeeps,
    frame.trans resized.toFrame⟩

theorem erase_of_lookup_eq_none {key : K} (absent : m.lookup key = none) : m.erase key = m := by
  refine Finmap.ext_lookup fun key' => ?_
  by_cases same : key' = key
  · rw [same, Finmap.lookup_erase, absent]
  · rw [Finmap.lookup_erase_ne same]

/-- An empty dictionary has nothing to delete. -/
theorem Represents.lookup_of_size_eq_zero (represents : d.Represents hash m) (empty : d.size = 0)
    (key : K) : m.lookup key = none := by
  rw [represents.inv.size_eq, List.length_eq_zero_iff] at empty
  exact represents.lookup_eq_none fun val => empty ▸ List.not_mem_nil

theorem genericDelete_spec (policy : Policy) (represents : d.Represents hash m) (key : K) :
    ∃ d', genericDelete policy hash d key = some (d', (m.lookup key).map fun val => (key, val)) ∧
      d'.Represents hash (m.erase key) ∧ d.Frame d' := by
  rw [genericDelete]
  by_cases empty : d.size = 0
  · have absent := represents.lookup_of_size_eq_zero empty key
    rw [if_pos empty, absent, erase_of_lookup_eq_none absent]
    exact ⟨d, rfl, represents, .refl d⟩
  obtain ⟨d₁, rehashed, spec⟩ := rehashOnAccess_spec policy represents.inv (hash key)
  obtain ⟨found, searched, finds⟩ := spec.search_spec (represents.inv.allocated empty) key
  have represents₁ := represents.keeps spec.toKeeps
  rw [if_neg empty]
  dsimp only
  rw [rehashed, Option.bind_some, searched, Option.bind_some]
  cases found with
  | none =>
    have absent := represents₁.lookup_eq_none finds
    rw [absent, erase_of_lookup_eq_none absent]
    exact ⟨d₁, rfl, represents₁, spec.toFrame⟩
  | some found =>
    obtain ⟨located, rfl⟩ := finds
    obtain ⟨d₂, d', unlinked, shrunk, represents', frame⟩ :=
      unlink_found_spec policy represents₁ located
    refine ⟨d', ?_, represents', spec.toFrame.trans frame⟩
    dsimp only
    rw [unlinked, Option.bind_some, shrunk, represents₁.lookup_located located]
    rfl

theorem Represents.setPause (represents : d.Represents hash m) (pauserehash : BitVec 15)
    (pauseAutoResize : Int16) : Represents hash { d with pauserehash, pauseAutoResize } m where
  inv := represents.inv.setPause pauserehash pauseAutoResize
  lookup := represents.lookup

/-- The two phases with nothing in between. -/
def twoPhaseUnlink (policy : Policy) (hash : K → BitVec 64) (d : Dict K V) (key : K) :
    Option (Dict K V × Option (K × V)) :=
  (twoPhaseUnlinkFind policy hash d key).bind fun
    | (d, none) => some (d, none)
    | (d, some found) => (twoPhaseUnlinkFree policy d found).map fun d => (d, some found.entry)

theorem twoPhaseUnlinkFind_spec (policy : Policy) (represents : d.Represents hash m) (key : K) :
    ∃ d' found, twoPhaseUnlinkFind policy hash d key = some (d', found) ∧
      d'.Represents hash m ∧ d.Frame d' ∧ d'.Finds key found := by
  rw [twoPhaseUnlinkFind]
  by_cases empty : d.size = 0
  · rw [if_pos empty]
    refine ⟨d, none, rfl, represents, .refl d, fun val member => ?_⟩
    rw [represents.lookup, represents.lookup_of_size_eq_zero empty key] at member
    cases member
  have step : ∃ d₁, (if d.rehashidx ≠ none then rehashStep policy hash d else some d) = some d₁ ∧
      d.Rehashed hash d₁ := by
    split_ifs
    · exact rehashStep_spec policy represents.inv
    · exact ⟨d, rfl, represents.inv.rehashed⟩
  obtain ⟨d₁, stepped, spec⟩ := step
  have allocated := spec.allocated (represents.inv.allocated empty)
  obtain ⟨found, searched, finds⟩ :=
    Dict.search_spec spec.inv allocated key fun _ _ below => below
  have represents₁ := represents.keeps spec.toKeeps
  rw [if_neg empty, stepped, Option.bind_some, searched, Option.map_some]
  cases found with
  | none => exact ⟨d₁, none, rfl, represents₁, spec.toFrame, finds⟩
  | some found =>
    exact ⟨_, some found, rfl, represents₁.setPause _ _, ⟨spec.pauses, spec.toFrame.allocated⟩,
      finds⟩

theorem twoPhaseUnlink_spec (policy : Policy) (represents : d.Represents hash m) (key : K) :
    ∃ d', twoPhaseUnlink policy hash d key = some (d', (m.lookup key).map fun val => (key, val)) ∧
      d'.Represents hash (m.erase key) ∧ d.Frame d' := by
  obtain ⟨d₁, found, searched, represents₁, frame₁, finds⟩ :=
    twoPhaseUnlinkFind_spec policy represents key
  rw [twoPhaseUnlink, searched, Option.bind_some]
  cases found with
  | none =>
    have absent := represents₁.lookup_eq_none finds
    rw [absent, erase_of_lookup_eq_none absent]
    exact ⟨d₁, rfl, represents₁, frame₁⟩
  | some found =>
    obtain ⟨located, rfl⟩ := finds
    obtain ⟨d₂, d', unlinked, shrunk, represents', frame⟩ :=
      unlink_found_spec policy represents₁ located
    have both := frame₁.trans frame
    refine ⟨_, ?_, represents'.setPause (d'.pauserehash - 1) _, ⟨both.pauses, both.allocated⟩⟩
    dsimp only
    rw [twoPhaseUnlinkFree, unlinked, Option.bind_some, shrunk,
      represents₁.lookup_located located]
    rfl

end Operations

end Dict

/-! ### Runs -/

/-- The calls that have nothing to do with the entries. -/
inductive Maintenance where
  | expand (size : ℕ)
  | shrink (size : ℕ)
  | expandIfNeeded
  | shrinkIfNeeded
  | rehash (n : ℕ)
  | pauseRehashing
  | resumeRehashing

/-- The calls of a dictionary. -/
inductive DictOp (K V : Type) where
  | add (key : K) (val : V)
  | replace (key : K) (val : V)
  | find (key : K)
  | delete (key : K)
  | twoPhaseUnlink (key : K)
  | size
  | empty
  | pauseAutoResize
  | resumeAutoResize
  | maintain (op : Maintenance)

inductive DictAnswer (K V : Type) where
  | added (added : Bool)
  | entry (entry : Option (K × V))
  | size (size : ℕ)
  | done

/-- Whether a resize or a rehashing had anything to do is not part of the answer. -/
def Dict.maintain {K V : Type} (policy : Policy) (hash : K → BitVec 64) (d : Dict K V) :
    Maintenance → Option (Dict K V)
  | .expand size => (d.expand size).map Prod.fst
  | .shrink size => (d.shrink size).map Prod.fst
  | .expandIfNeeded => (d.expandIfNeeded policy).map Prod.fst
  | .shrinkIfNeeded => (d.shrinkIfNeeded policy).map Prod.fst
  | .rehash n => (rehash policy hash d n).map Prod.fst
  | .pauseRehashing => some { d with pauserehash := d.pauserehash + 1 }
  | .resumeRehashing => some { d with pauserehash := d.pauserehash - 1 }

theorem Dict.maintain_spec {K V : Type} {hash : K → BitVec 64} {d : Dict K V} (inv : d.Inv hash)
    (policy : Policy) (op : Maintenance) :
    ∃ d', d.maintain policy hash op = some d' ∧ d.Keeps hash d' := by
  cases op with
  | expand size =>
    obtain ⟨d', done, expanded, resized⟩ := expand_spec inv size
    exact ⟨d', by rw [maintain, expanded, Option.map_some], resized.toKeeps⟩
  | shrink size =>
    obtain ⟨d', done, shrunk, resized⟩ := shrink_spec inv size
    exact ⟨d', by rw [maintain, shrunk, Option.map_some], resized.toKeeps⟩
  | expandIfNeeded =>
    obtain ⟨d', done, expanded, resized, -⟩ := expandIfNeeded_spec policy inv
    exact ⟨d', by rw [maintain, expanded, Option.map_some], resized.toKeeps⟩
  | shrinkIfNeeded =>
    obtain ⟨d', done, shrunk, resized⟩ := shrinkIfNeeded_spec policy inv
    exact ⟨d', by rw [maintain, shrunk, Option.map_some], resized.toKeeps⟩
  | rehash n =>
    obtain ⟨d', more, moved, rehashed⟩ := rehash_spec policy inv n
    exact ⟨d', by rw [maintain, moved, Option.map_some], rehashed.toKeeps⟩
  | pauseRehashing => exact ⟨_, rfl, ⟨rfl, id⟩, inv.setPause _ _, .rfl⟩
  | resumeRehashing => exact ⟨_, rfl, ⟨rfl, id⟩, inv.setPause _ _, .rfl⟩

section Runs

variable {K V : Type} [DecidableEq K]

/-- A call under the policy of its moment. -/
def Dict.perform (hash : K → BitVec 64) (d : Dict K V) :
    Policy × DictOp K V → Option (Dict K V × DictAnswer K V)
  | (policy, .add key val) => (add policy hash d key val).map fun r => (r.1, .added r.2)
  | (policy, .replace key val) => (replace policy hash d key val).map fun r => (r.1, .added r.2)
  | (policy, .find key) => (find policy hash d key).map fun r => (r.1, .entry r.2)
  | (policy, .delete key) => (genericDelete policy hash d key).map fun r => (r.1, .entry r.2)
  | (policy, .twoPhaseUnlink key) =>
    (twoPhaseUnlink policy hash d key).map fun r => (r.1, .entry r.2)
  | (_, .size) => some (d, .size d.size)
  | (_, .empty) => some (d.empty, .done)
  | (_, .pauseAutoResize) => some ({ d with pauseAutoResize := d.pauseAutoResize + 1 }, .done)
  | (_, .resumeAutoResize) => some ({ d with pauseAutoResize := d.pauseAutoResize - 1 }, .done)
  | (policy, .maintain op) => (d.maintain policy hash op).map fun d => (d, .done)

/-- What a dictionary stands for: a finite map, and how often automatic resizing has been paused and
not resumed. -/
structure MapState (K V : Type) where
  map : Finmap fun _ : K => V
  pauses : ℤ

/-- What a call means for the map.  Automatic resizing may be paused only while there are entries,
since in a dictionary without a table the first entry would have no bucket, and the counter of the
pauses must not leave its sixteen bits. -/
def mapPerform (s : MapState K V) : DictOp K V → Option (MapState K V × DictAnswer K V)
  | .add key val =>
    some ({ s with map := if (s.map.lookup key).isNone then s.map.insert key val else s.map },
      .added (s.map.lookup key).isNone)
  | .replace key val =>
    some ({ s with map := s.map.insert key val }, .added (s.map.lookup key).isNone)
  | .find key => some (s, .entry ((s.map.lookup key).map fun val => (key, val)))
  | .delete key | .twoPhaseUnlink key =>
    some ({ s with map := s.map.erase key }, .entry ((s.map.lookup key).map fun val => (key, val)))
  | .size => some (s, .size s.map.keys.card)
  | .empty => some ({ map := ∅, pauses := 0 }, .done)
  | .pauseAutoResize =>
    if s.map.keys.card = 0 ∨ s.pauses = 2 ^ 15 - 1 then none
    else some ({ s with pauses := s.pauses + 1 }, .done)
  | .resumeAutoResize =>
    if s.pauses = -2 ^ 15 then none else some ({ s with pauses := s.pauses - 1 }, .done)
  | .maintain _ => some (s, .done)

namespace Dict

variable {hash : K → BitVec 64} {d d' : Dict K V} {s s' : MapState K V}

/-- The dictionary has the entries of the map, and can take in another one. -/
structure Models (hash : K → BitVec 64) (d : Dict K V) (s : MapState K V) : Prop where
  represents : d.Represents hash s.map
  pauses : d.pauseAutoResize.toInt = s.pauses
  ready : d.Ready

theorem models_create : (create : Dict K V).Models hash { map := ∅, pauses := 0 } where
  represents := represents_create
  pauses := rfl
  ready paused := absurd paused (show ¬(0 : Int16) > 0 by decide)

theorem Models.frame (models : d.Models hash s) {m : Finmap fun _ : K => V}
    (represents : d'.Represents hash m) (frame : d.Frame d') :
    d'.Models hash { s with map := m } where
  represents := represents
  pauses := by rw [frame.pauses, models.pauses]
  ready := frame.ready models.ready

/-- The counter within its bounds. -/
theorem toInt_pause {n : Int16} (bound : n.toInt ≠ 2 ^ 15 - 1) : (n + 1).toInt = n.toInt + 1 := by
  have upper := n.toInt_lt
  have lower := n.le_toInt
  rw [Int16.toInt_add, show (1 : Int16).toInt = 1 from rfl]
  exact Int.bmod_eq_of_le (by omega) (by omega)

theorem toInt_resume {n : Int16} (bound : n.toInt ≠ -2 ^ 15) : (n - 1).toInt = n.toInt - 1 := by
  have upper := n.toInt_lt
  have lower := n.le_toInt
  rw [Int16.toInt_sub, show (1 : Int16).toInt = 1 from rfl]
  exact Int.bmod_eq_of_le (by omega) (by omega)

theorem perform_refines (models : d.Models hash s) (policy : Policy) {op : DictOp K V}
    {answer : DictAnswer K V} (specified : mapPerform s op = some (s', answer)) :
    ∃ d', d.perform hash (policy, op) = some (d', answer) ∧ d'.Models hash s' := by
  have represents := models.represents
  cases op with
  | pauseAutoResize =>
    rw [mapPerform] at specified
    split_ifs at specified with refused
    obtain ⟨rfl, rfl⟩ := Prod.mk.inj (Option.some.inj specified)
    obtain ⟨inhabited, bound⟩ := not_or.1 refused
    rw [← models.pauses] at bound
    refine ⟨_, rfl, represents.setPause _ _, ?_, fun _ => ?_⟩
    · rw [toInt_pause bound, models.pauses]
    · exact represents.inv.allocated (represents.size_eq ▸ inhabited)
  | resumeAutoResize =>
    rw [mapPerform] at specified
    split_ifs at specified with refused
    obtain ⟨rfl, rfl⟩ := Prod.mk.inj (Option.some.inj specified)
    rw [← models.pauses] at refused
    refine ⟨_, rfl, represents.setPause _ _, ?_, fun still => models.ready ?_⟩
    · rw [toInt_resume refused, models.pauses]
    · rw [gt_iff_lt, Int16.lt_iff_toInt_lt, toInt_resume refused] at still
      rw [gt_iff_lt, Int16.lt_iff_toInt_lt]
      exact still.trans (Int.sub_lt_self _ one_pos)
  | add key val =>
    obtain ⟨rfl, rfl⟩ := Prod.mk.inj (Option.some.inj specified)
    obtain ⟨d', added, represents', frame⟩ := add_spec policy represents models.ready key val
    exact ⟨d', by rw [perform, added, Option.map_some], models.frame represents' frame⟩
  | replace key val =>
    obtain ⟨rfl, rfl⟩ := Prod.mk.inj (Option.some.inj specified)
    obtain ⟨d', replaced, represents', frame⟩ := replace_spec policy represents models.ready key val
    exact ⟨d', by rw [perform, replaced, Option.map_some], models.frame represents' frame⟩
  | find key =>
    obtain ⟨rfl, rfl⟩ := Prod.mk.inj (Option.some.inj specified)
    obtain ⟨d', found, represents', frame⟩ := find_spec policy represents key
    exact ⟨d', by rw [perform, found, Option.map_some], models.frame represents' frame⟩
  | delete key =>
    obtain ⟨rfl, rfl⟩ := Prod.mk.inj (Option.some.inj specified)
    obtain ⟨d', deleted, represents', frame⟩ := genericDelete_spec policy represents key
    exact ⟨d', by rw [perform, deleted, Option.map_some], models.frame represents' frame⟩
  | twoPhaseUnlink key =>
    obtain ⟨rfl, rfl⟩ := Prod.mk.inj (Option.some.inj specified)
    obtain ⟨d', deleted, represents', frame⟩ := twoPhaseUnlink_spec policy represents key
    exact ⟨d', by rw [perform, deleted, Option.map_some], models.frame represents' frame⟩
  | size =>
    obtain ⟨rfl, rfl⟩ := Prod.mk.inj (Option.some.inj specified)
    exact ⟨d, by rw [perform, represents.size_eq], models⟩
  | empty =>
    obtain ⟨rfl, rfl⟩ := Prod.mk.inj (Option.some.inj specified)
    exact ⟨_, rfl, models_create⟩
  | maintain op =>
    obtain ⟨rfl, rfl⟩ := Prod.mk.inj (Option.some.inj specified)
    obtain ⟨d', maintained, keeps⟩ := maintain_spec represents.inv policy op
    exact ⟨d', by rw [perform, maintained, Option.map_some],
      models.frame (represents.keeps keeps) keeps.toFrame⟩

/-- Whatever the hash function, and whatever is resized or rehashed in between, the answers of a
dictionary are those of a finite map, as long as automatic resizing is paused only while there are
entries and the counter of the pauses does not overflow. -/
theorem dict_refines_map {events : List (Policy × DictOp K V)} {answers : List (DictAnswer K V)}
    (specified : run (logged fun s event => mapPerform s event.2)
      (({ map := ∅, pauses := 0 } : MapState K V), []) events = some (s', answers)) :
    ∃ d', run (logged (perform hash)) (create, []) events = some (d', answers) ∧
      d'.Represents hash s'.map := by
  obtain ⟨d', ran, models⟩ := run_logged_refines (R := fun s (d : Dict K V) => d.Models hash s)
    (fun _ _ event _ _ models specified => perform_refines models event.1 specified)
    models_create specified
  exact ⟨d', ran, models.represents⟩

/-- A run with two keys of one bucket. -/
theorem dict_refines_map_collision :
    ∃ d' : Dict ℕ ℕ, run (logged (perform (BitVec.ofNat 64))) (create, [])
        [(⟨.enable, fun _ _ _ => true⟩, .add 1 10), (⟨.avoid, fun _ _ _ => true⟩, .add 5 50),
          (⟨.enable, fun _ _ _ => true⟩, .pauseAutoResize),
          (⟨.forbid, fun _ _ _ => false⟩, .delete 1),
          (⟨.enable, fun _ _ _ => true⟩, .resumeAutoResize),
          (⟨.enable, fun _ _ _ => true⟩, .find 5)] =
        some (d', [.added true, .added true, .done, .entry (some (1, 10)), .done,
          .entry (some (5, 50))]) ∧
      d'.Represents (BitVec.ofNat 64)
        ((((∅ : Finmap fun _ : ℕ => ℕ).insert 1 10).insert 5 50).erase 1) :=
  let last : MapState ℕ ℕ := ⟨(((∅ : Finmap fun _ : ℕ => ℕ).insert 1 10).insert 5 50).erase 1, 0⟩
  @dict_refines_map ℕ ℕ _ (BitVec.ofNat 64) last _ _ rfl

end Dict

end Runs

end CodeNotes.RedisServer
