import CodeNotes.Lib.ReverseCounter

/-!
# The hash table of the Redis server

`dict.c` of the Redis server that the backend starts.  A dictionary has two tables of chained
buckets.  It grows and shrinks incrementally: a resize allocates the second table, and from then on
every operation moves a bucket of the first table to the second one, until the first is empty and
the second takes its place.  `rehashidx` is the first bucket of the old table that may still have
entries, and `none` (the `-1` of the source) if no rehashing is in progress.

An operation is `none` where the source fails an assertion or reads outside a table.  The hash
function and `dictType.resizeAllowed` are parameters, and so is the global `dict_can_resize`, which
may differ from call to call.
-/

namespace CodeNotes.RedisServer

open ReverseCounter

/-- `dictResizeEnable`. -/
inductive ResizeEnable where
  | enable
  | avoid
  | forbid
  deriving DecidableEq

/-- What decides about resizing: `dict_can_resize`, and `dictType.resizeAllowed` as a function of
the memory needed, the number of entries and the number of buckets. -/
structure Policy where
  canResize : ResizeEnable
  resizeAllowed : ℕ → ℕ → ℕ → Bool

def HASHTABLE_MIN_FILL : ℕ := 8
def DICT_HT_INITIAL_EXP : ℕ := 2
def DICT_HT_INITIAL_SIZE : ℕ := 2 ^ DICT_HT_INITIAL_EXP
def dict_force_resize_ratio : ℕ := 4
def LONG_MAX : ℕ := 2 ^ 63 - 1

/-- `DICTHT_SIZE`; the exponent `none` is the `-1` of a table that is not allocated. -/
def htSize : Option ℕ → ℕ
  | none => 0
  | some exp => 2 ^ exp

/-- `DICTHT_SIZE_MASK`. -/
def htSizeMask : Option ℕ → BitVec 64
  | none => 0
  | some exp => low 64 exp

/-- The bucket of a hash. -/
def bucketIndex (hash : BitVec 64) (exp : Option ℕ) : ℕ := (hash &&& htSizeMask exp).toNat

/-- `ht_table[i]`, `ht_used[i]` and `ht_size_exp[i]`. -/
structure HashTable (K V : Type) where
  table : List (List (K × V))
  used : ℕ
  sizeExp : Option ℕ

/-- `_dictReset`. -/
def HashTable.reset {K V : Type} : HashTable K V := { table := [], used := 0, sizeExp := none }

def HashTable.size {K V : Type} (ht : HashTable K V) : ℕ := htSize ht.sizeExp

structure Dict (K V : Type) where
  ht0 : HashTable K V
  ht1 : HashTable K V
  rehashidx : Option ℕ
  /-- A bit field of 15 bits. -/
  pauserehash : BitVec 15
  /-- An `int16_t`, which wraps around. -/
  pauseAutoResize : Int16

/-- An entry with its table and bucket. -/
structure Found (K V : Type) where
  table : Fin 2
  idx : ℕ
  entry : K × V

namespace Dict

variable {K V : Type}

def ht (d : Dict K V) : Fin 2 → HashTable K V
  | 0 => d.ht0
  | 1 => d.ht1

def setHt (d : Dict K V) (i : Fin 2) (t : HashTable K V) : Dict K V :=
  match i with
  | 0 => { d with ht0 := t }
  | 1 => { d with ht1 := t }

/-- `dictCreate`. -/
def create : Dict K V :=
  { ht0 := .reset, ht1 := .reset, rehashidx := none, pauserehash := 0, pauseAutoResize := 0 }

/-- `dictSize`. -/
def size (d : Dict K V) : ℕ := d.ht0.used + d.ht1.used

/-! ### Resizing -/

/-- `_dictNextExp`, where `8 * sizeof(long) - __builtin_clzl(n)` is the number of binary digits. -/
def nextExp (size : ℕ) : ℕ :=
  if size ≤ DICT_HT_INITIAL_SIZE then DICT_HT_INITIAL_EXP
  else if size ≥ LONG_MAX then 63
  else Nat.log2 (size - 1) + 1

/-- `_dictResize`, without the reporting of failed allocations. -/
def resize (d : Dict K V) (size : ℕ) : Option (Dict K V × Bool) :=
  if d.rehashidx ≠ none then none
  else
    let exp := nextExp size
    let newsize := htSize (some exp)
    if newsize < size ∨ newsize * 8 % 2 ^ 64 < newsize then some (d, false)
    else if some exp = d.ht0.sizeExp then some (d, false)
    else
      let new := { table := List.replicate newsize [], used := 0, sizeExp := some exp }
      -- an empty first table is replaced at once
      if d.ht0.sizeExp = none ∨ d.ht0.used = 0 then
        some ({ d with ht0 := new, ht1 := .reset, rehashidx := none }, true)
      else some ({ d with ht1 := new, rehashidx := some 0 }, true)

/-- `dictExpand`. -/
def expand (d : Dict K V) (size : ℕ) : Option (Dict K V × Bool) :=
  if d.rehashidx ≠ none ∨ d.ht0.used > size ∨ d.ht0.size ≥ size then some (d, false)
  else d.resize size

/-- `dictShrink`. -/
def shrink (d : Dict K V) (size : ℕ) : Option (Dict K V × Bool) :=
  if d.rehashidx ≠ none ∨ d.ht0.used > size ∨ d.ht0.size ≤ size then some (d, false)
  else d.resize size

/-- `dictTypeResizeAllowed`. -/
def typeResizeAllowed (policy : Policy) (d : Dict K V) (size : ℕ) : Bool :=
  policy.resizeAllowed (htSize (some (nextExp size)) * 8) d.ht0.used d.ht0.size

/-- `dictExpandIfNeeded`. -/
def expandIfNeeded (policy : Policy) (d : Dict K V) : Option (Dict K V × Bool) :=
  if d.rehashidx ≠ none then some (d, true)
  else if d.ht0.size = 0 then (d.expand DICT_HT_INITIAL_SIZE).map fun r => (r.1, true)
  else if policy.canResize = .enable ∧ d.ht0.used ≥ d.ht0.size ∨
      policy.canResize ≠ .forbid ∧ d.ht0.used ≥ dict_force_resize_ratio * d.ht0.size then
    if typeResizeAllowed policy d (d.ht0.used + 1) then
      (d.expand (d.ht0.used + 1)).map fun r => (r.1, true)
    else some (d, true)
  else some (d, false)

/-- `_dictExpandIfNeeded`. -/
def autoExpand (policy : Policy) (d : Dict K V) : Option (Dict K V) :=
  if d.pauseAutoResize > 0 then some d else (d.expandIfNeeded policy).map Prod.fst

/-- `dictShrinkIfNeeded`. -/
def shrinkIfNeeded (policy : Policy) (d : Dict K V) : Option (Dict K V × Bool) :=
  if d.rehashidx ≠ none then some (d, true)
  else if d.ht0.size ≤ DICT_HT_INITIAL_SIZE then some (d, true)
  else if policy.canResize = .enable ∧ d.ht0.used * HASHTABLE_MIN_FILL ≤ d.ht0.size ∨
      policy.canResize ≠ .forbid ∧
        d.ht0.used * HASHTABLE_MIN_FILL * dict_force_resize_ratio ≤ d.ht0.size then
    if typeResizeAllowed policy d d.ht0.used then (d.shrink d.ht0.used).map fun r => (r.1, true)
    else some (d, true)
  else some (d, false)

/-- `_dictShrinkIfNeeded`. -/
def autoShrink (policy : Policy) (d : Dict K V) : Option (Dict K V) :=
  if d.pauseAutoResize > 0 then some d else (d.shrinkIfNeeded policy).map Prod.fst

/-! ### Rehashing -/

section Rehashing

variable (policy : Policy) (hash : K → BitVec 64)

/-- The body of the loop of `rehashEntriesInBucketAtIndex`, which compares the exponents of the
sizes. -/
def rehashEntry (idx : ℕ) (d : Dict K V) (de : K × V) : Option (Dict K V) :=
  let h :=
    if d.ht1.size > d.ht0.size then bucketIndex (hash de.1) d.ht1.sizeExp
    -- the table shrinks, and the index in the larger table is masked
    else bucketIndex (BitVec.ofNat 64 idx) d.ht1.sizeExp
  (d.ht1.table[h]?).map fun chain =>
    { d with
      ht0 := { d.ht0 with used := d.ht0.used - 1 }
      ht1 := { d.ht1 with table := d.ht1.table.set h (de :: chain), used := d.ht1.used + 1 } }

def rehashEntriesInBucketAtIndex (d : Dict K V) (idx : ℕ) : Option (Dict K V) :=
  (d.ht0.table[idx]?).bind fun chain =>
    (chain.foldlM (rehashEntry hash idx) d).map fun d =>
      { d with ht0 := { d.ht0 with table := d.ht0.table.set idx [] } }

/-- `dictCheckRehashingCompleted`. -/
def checkRehashingCompleted (d : Dict K V) : Dict K V × Bool :=
  if d.ht0.used ≠ 0 then (d, false)
  else ({ d with ht0 := d.ht1, ht1 := .reset, rehashidx := none }, true)

/-- Rehashing does nothing now: it is forbidden, or not in progress, or to be avoided. -/
def rehashRefused (d : Dict K V) : Prop :=
  policy.canResize = .forbid ∨ d.rehashidx = none ∨
    policy.canResize = .avoid ∧
      (d.ht1.size > d.ht0.size ∧ d.ht1.size < dict_force_resize_ratio * d.ht0.size ∨
        d.ht1.size < d.ht0.size ∧
          d.ht0.size < HASHTABLE_MIN_FILL * dict_force_resize_ratio * d.ht1.size)

instance (d : Dict K V) : Decidable (rehashRefused policy d) :=
  inferInstanceAs (Decidable (_ ∨ _ ∨ _))

/-- The inner loop of `dictRehash`, from the index `idx` with `visits` empty buckets left to visit:
the next bucket with entries and the visits left, of which there are none if the loop has given
up. -/
def skipEmpty (table : List (List (K × V))) : ℕ → ℕ → Option (ℕ × ℕ)
  | 0, _ => none
  | visits + 1, idx =>
    (table[idx]?).bind fun
      | [] => if visits = 0 then some (idx + 1, 0) else skipEmpty table visits (idx + 1)
      | _ :: _ => some (idx, visits + 1)

/-- The loop of `dictRehash`. -/
def rehashLoop : ℕ → ℕ → Dict K V → Option (Dict K V × Bool)
  | 0, _, d => some ((checkRehashingCompleted d).1, !(checkRehashingCompleted d).2)
  | n + 1, visits, d =>
    if d.ht0.used = 0 then some ((checkRehashingCompleted d).1, !(checkRehashingCompleted d).2)
    else
      d.rehashidx.bind fun rehashidx =>
        if d.ht0.size > rehashidx then
          (skipEmpty d.ht0.table visits rehashidx).bind fun (idx, left) =>
            if left = 0 then some ({ d with rehashidx := some idx }, true)
            else
              (rehashEntriesInBucketAtIndex hash d idx).bind fun d =>
                rehashLoop n left { d with rehashidx := some (idx + 1) }
        else none

/-- `dictRehash`: whether there are still keys to move. -/
def rehash (d : Dict K V) (n : ℕ) : Option (Dict K V × Bool) :=
  if rehashRefused policy d then some (d, false) else rehashLoop hash n (n * 10) d

/-- `_dictRehashStep`. -/
def rehashStep (d : Dict K V) : Option (Dict K V) :=
  if d.pauserehash = 0 then (rehash policy hash d 1).map Prod.fst else some d

/-- `_dictBucketRehash`. -/
def bucketRehash (d : Dict K V) (idx : ℕ) : Option (Dict K V) :=
  if d.pauserehash ≠ 0 ∨ rehashRefused policy d then some d
  else (rehashEntriesInBucketAtIndex hash d idx).map fun d => (checkRehashingCompleted d).1

/-- The rehashing that `dictFind`, `dictGenericDelete` and `dictFindPositionForInsert` begin
with. -/
def rehashOnAccess (d : Dict K V) (idx : ℕ) : Option (Dict K V) :=
  match d.rehashidx with
  | none => some d
  | some rehashidx =>
    if idx ≥ rehashidx then
      (d.ht0.table[idx]?).bind fun
        | [] => rehashStep policy hash d
        | _ :: _ => bucketRehash policy hash d idx
    else rehashStep policy hash d

end Rehashing

/-! ### Entries -/

section Entries

variable [DecidableEq K] (policy : Policy) (hash : K → BitVec 64)

/-- The search of one chain. -/
def searchTable (d : Dict K V) (table : Fin 2) (key : K) : Option (Option (Found K V)) :=
  let idx := bucketIndex (hash key) (d.ht table).sizeExp
  ((d.ht table).table[idx]?).map fun chain =>
    (chain.find? fun he => he.1 = key).map fun he => ⟨table, idx, he⟩

/-- The loop over the tables that the operations have in common; the first table is left out if
`idx` is below `rehashidx`. -/
def search (d : Dict K V) (idx : ℕ) (key : K) : Option (Option (Found K V)) :=
  if ∃ rehashidx ∈ d.rehashidx, idx < rehashidx then searchTable hash d 1 key
  else
    (searchTable hash d 0 key).bind fun
      | some found => some (some found)
      | none => if d.rehashidx = none then some none else searchTable hash d 1 key

/-- `dictFind`. -/
def find (d : Dict K V) (key : K) : Option (Dict K V × Option (K × V)) :=
  if d.size = 0 then some (d, none)
  else
    let idx := bucketIndex (hash key) d.ht0.sizeExp
    (rehashOnAccess policy hash d idx).bind fun d =>
      (search hash d idx key).map fun found => (d, found.map Found.entry)

/-- `dictIsRehashing(d) ? 1 : 0`, the table that entries are inserted in. -/
def insertTable (d : Dict K V) : Fin 2 := if d.rehashidx ≠ none then 1 else 0

/-- `dictFindPositionForInsert`: the entry of the key, or the bucket for a new one. -/
def findPositionForInsert (d : Dict K V) (key : K) :
    Option (Dict K V × (Found K V ⊕ Fin 2 × ℕ)) :=
  let idx := bucketIndex (hash key) d.ht0.sizeExp
  (rehashOnAccess policy hash d idx).bind fun d =>
    (autoExpand policy d).bind fun d =>
      (search hash d idx key).map fun
        | some found => (d, .inl found)
        | none => (d, .inr (d.insertTable, bucketIndex (hash key) (d.ht d.insertTable).sizeExp))

/-- `dictInsertAtPosition`, with the value that the caller then gives to the entry.  The bucket has
to be one of the table that entries are inserted in. -/
def insertAtPosition (d : Dict K V) (entry : K × V) (table : Fin 2) (idx : ℕ) : Option (Dict K V) :=
  if table = d.insertTable then
    ((d.ht table).table[idx]?).map fun chain =>
      d.setHt table
        { d.ht table with
          table := (d.ht table).table.set idx (entry :: chain)
          used := (d.ht table).used + 1 }
  else none

/-- `dictAddRaw`: the entry that exists, if there is one. -/
def addRaw (d : Dict K V) (key : K) (val : V) : Option (Dict K V × Option (Found K V)) :=
  (findPositionForInsert policy hash d key).bind fun
    | (d, .inl existing) => some (d, some existing)
    | (d, .inr (table, idx)) => (d.insertAtPosition (key, val) table idx).map fun d => (d, none)

/-- `dictAdd`: whether the key was added. -/
def add (d : Dict K V) (key : K) (val : V) : Option (Dict K V × Bool) :=
  (addRaw policy hash d key val).map fun r => (r.1, r.2.isNone)

/-- Give an entry of a chain another value. -/
def chainSetVal (key : K) (val : V) : List (K × V) → List (K × V)
  | [] => []
  | he :: chain => if he.1 = key then (he.1, val) :: chain else he :: chainSetVal key val chain

/-- `dictSetVal`. -/
def setVal (d : Dict K V) (found : Found K V) (val : V) : Option (Dict K V) :=
  ((d.ht found.table).table[found.idx]?).map fun chain =>
    d.setHt found.table
      { d.ht found.table with
        table := (d.ht found.table).table.set found.idx (chainSetVal found.entry.1 val chain) }

/-- `dictReplace`: whether the key was added. -/
def replace (d : Dict K V) (key : K) (val : V) : Option (Dict K V × Bool) :=
  (addRaw policy hash d key val).bind fun
    | (d, none) => some (d, true)
    | (d, some existing) => (d.setVal existing val).map fun d => (d, false)

/-- Take an entry out of its chain. -/
def unlink (d : Dict K V) (found : Found K V) : Option (Dict K V) :=
  ((d.ht found.table).table[found.idx]?).map fun chain =>
    d.setHt found.table
      { d.ht found.table with
        table := (d.ht found.table).table.set found.idx
          (chain.eraseP fun he => he.1 = found.entry.1)
        used := (d.ht found.table).used - 1 }

/-- `dictGenericDelete`: the entry that was deleted. -/
def genericDelete (d : Dict K V) (key : K) : Option (Dict K V × Option (K × V)) :=
  if d.size = 0 then some (d, none)
  else
    let idx := bucketIndex (hash key) d.ht0.sizeExp
    (rehashOnAccess policy hash d idx).bind fun d =>
      (search hash d idx key).bind fun
        | none => some (d, none)
        | some found =>
          (d.unlink found).bind fun d => (autoShrink policy d).map fun d => (d, some found.entry)

/-- `dictTwoPhaseUnlinkFind`, which pauses rehashing if the entry is found. -/
def twoPhaseUnlinkFind (d : Dict K V) (key : K) : Option (Dict K V × Option (Found K V)) :=
  if d.size = 0 then some (d, none)
  else
    (if d.rehashidx ≠ none then rehashStep policy hash d else some d).bind fun d =>
      (search hash d (bucketIndex (hash key) d.ht0.sizeExp) key).map fun
        | some found => ({ d with pauserehash := d.pauserehash + 1 }, some found)
        | none => (d, none)

/-- `dictTwoPhaseUnlinkFree`. -/
def twoPhaseUnlinkFree (d : Dict K V) (found : Found K V) : Option (Dict K V) :=
  (d.unlink found).bind fun d =>
    (autoShrink policy d).map fun d => { d with pauserehash := d.pauserehash - 1 }

/-- `dictEmpty`. -/
def empty (_ : Dict K V) : Dict K V := create

end Entries

end Dict

end CodeNotes.RedisServer
