import Mathlib.Data.List.Perm.Basic
import Mathlib.Tactic

/-!
# Arrays of buckets

The buckets of a hash table as a list of lists.  What an update of one bucket does to the elements
of all of them is said up to their order (`flatten_set_perm`).  `Placed` says that every element is
in the bucket a function assigns to it, which is then the only one to search
(`Placed.mem_flatten_iff`).
-/

namespace CodeNotes.Buckets

variable {α : Type*}

theorem mem_flatten_iff {buckets : List (List α)} {x : α} :
    x ∈ buckets.flatten ↔ ∃ (i : ℕ) (bucket : List α), buckets[i]? = some bucket ∧ x ∈ bucket := by
  rw [List.mem_flatten]
  constructor
  · rintro ⟨bucket, member, inside⟩
    obtain ⟨i, found⟩ := List.mem_iff_getElem?.1 member
    exact ⟨i, bucket, found, inside⟩
  · rintro ⟨i, bucket, found, inside⟩
    exact ⟨bucket, List.mem_of_getElem? found, inside⟩

theorem append_right_comm_perm (xs ys zs : List α) : (xs ++ ys ++ zs).Perm (xs ++ zs ++ ys) := by
  rw [List.append_assoc, List.append_assoc]
  exact List.perm_append_comm.append_left xs

theorem flatten_set_perm {buckets : List (List α)} {i : ℕ} {old : List α} (new : List α)
    (found : buckets[i]? = some old) :
    ((buckets.set i new).flatten ++ old).Perm (buckets.flatten ++ new) := by
  induction buckets generalizing i with
  | nil => simp at found
  | cons bucket buckets ih =>
    cases i with
    | zero =>
      obtain rfl : bucket = old := by simpa using found
      simp only [List.set_cons_zero, List.flatten_cons, List.append_assoc]
      refine List.perm_append_comm.trans ?_
      rw [List.append_assoc]
      exact List.perm_append_comm_assoc _ _ _
    | succ i =>
      simp only [List.set_cons_succ, List.flatten_cons, List.append_assoc]
      exact (ih (by simpa using found)).append_left bucket

theorem flatten_set_cons_perm {buckets : List (List α)} {i : ℕ} {bucket : List α} (x : α)
    (found : buckets[i]? = some bucket) :
    (buckets.set i (x :: bucket)).flatten.Perm (x :: buckets.flatten) := by
  have exchange := flatten_set_perm (x :: bucket) found
  refine (List.perm_append_right_iff bucket).1 (exchange.trans ?_)
  exact List.perm_middle

theorem flatten_set_nil_perm {buckets : List (List α)} {i : ℕ} {bucket : List α}
    (found : buckets[i]? = some bucket) :
    ((buckets.set i []).flatten ++ bucket).Perm buckets.flatten := by
  simpa using flatten_set_perm [] found

theorem flatten_replicate_nil (n : ℕ) : (List.replicate n ([] : List α)).flatten = [] := by
  simp

/-- Every element is in its own bucket. -/
def Placed (place : α → ℕ) (buckets : List (List α)) : Prop :=
  ∀ i bucket, buckets[i]? = some bucket → ∀ x ∈ bucket, place x = i

theorem placed_replicate (place : α → ℕ) (n : ℕ) : Placed place (List.replicate n []) := by
  intro i bucket found x inside
  have empty : bucket = [] := List.eq_of_mem_replicate (List.mem_of_getElem? found)
  rw [empty] at inside
  simp at inside

theorem placed_nil (place : α → ℕ) : Placed place [] := by
  intro i bucket found
  simp at found

theorem Placed.set {place : α → ℕ} {buckets : List (List α)} (placed : Placed place buckets) {i : ℕ}
    {bucket : List α} (inside : ∀ x ∈ bucket, place x = i) :
    Placed place (buckets.set i bucket) := by
  intro j other found
  rw [List.getElem?_set] at found
  split_ifs at found with same bound
  · obtain rfl := Option.some.inj found
    exact same ▸ inside
  · exact placed j other found

theorem Placed.mem_flatten_iff {place : α → ℕ} {buckets : List (List α)}
    (placed : Placed place buckets) {x : α} {bucket : List α}
    (found : buckets[place x]? = some bucket) : x ∈ buckets.flatten ↔ x ∈ bucket := by
  rw [CodeNotes.Buckets.mem_flatten_iff]
  constructor
  · rintro ⟨i, other, found', inside⟩
    rw [placed i other found' x inside, found'] at found
    exact Option.some.inj found ▸ inside
  · exact fun inside => ⟨_, bucket, found, inside⟩

end CodeNotes.Buckets
