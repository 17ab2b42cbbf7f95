import Mathlib.Data.List.MinMax
import Mathlib.Tactic

/-!
# The largest element

`largest` of the Rust examples, for a type whose `>` is any Boolean relation.  The loop compares
every item with the current candidate only.  Where `>` is irreflexive and transitive, the candidate
is nevertheless undominated among all the items seen (`Undominated.append`): an item that is greater
than a new candidate would have been greater than the old one.
-/

namespace CodeNotes.HelloWorld

variable {T : Type*}

/-- The body of the loop. -/
def keepGreater (gt : T → T → Bool) (largest item : T) : T :=
  if gt item largest then item else largest

/-- `largest(list)`; `none` is the panic at `list[0]`. -/
def largest (gt : T → T → Bool) (list : List T) : Option T := do
  let first ← list[0]?
  return list.foldl (keepGreater gt) first

/-- An item of the list that no item of it is greater than. -/
structure Undominated (gt : T → T → Bool) (list : List T) (x : T) : Prop where
  mem : x ∈ list
  not_gt : ∀ y ∈ list, gt y x = false

section Order

variable {gt : T → T → Bool} (irreflexive : ∀ a, gt a a = false)
  (transitive : ∀ a b c, gt a b = true → gt b c = true → gt a c = true)

include irreflexive in
theorem undominated_singleton (x : T) : Undominated gt [x] x where
  mem := List.mem_singleton_self x
  not_gt y mem := by
    rw [List.mem_singleton.1 mem]
    exact irreflexive x

include irreflexive transitive in
/-- One round of the loop. -/
theorem Undominated.append {seen : List T} {x : T} (undominated : Undominated gt seen x)
    (item : T) :
    Undominated gt (seen ++ [item]) (keepGreater gt x item) := by
  unfold keepGreater
  by_cases greater : gt item x = true
  · rw [if_pos greater]
    refine ⟨List.mem_append_right _ (List.mem_singleton_self item), fun y mem => ?_⟩
    rcases List.mem_append.1 mem with old | new
    · -- through the new candidate, `y` would have been greater than the old one
      have below := undominated.not_gt y old
      rw [Bool.eq_false_iff] at below ⊢
      exact fun above => below (transitive y item x above greater)
    · rw [List.mem_singleton.1 new]
      exact irreflexive item
  · rw [if_neg greater]
    refine ⟨List.mem_append_left _ undominated.mem, fun y mem => ?_⟩
    rcases List.mem_append.1 mem with old | new
    · exact undominated.not_gt y old
    · rw [List.mem_singleton.1 new]
      exact Bool.eq_false_iff.2 greater

include irreflexive transitive in
/-- The loop from any candidate on. -/
theorem undominated_foldl {seen : List T} {x : T} (undominated : Undominated gt seen x)
    (rest : List T) : Undominated gt (seen ++ rest) (rest.foldl (keepGreater gt) x) := by
  induction rest generalizing seen x with
  | nil => rwa [List.append_nil]
  | cons item rest ih =>
    have next := ih (undominated.append irreflexive transitive item)
    rwa [List.append_assoc] at next

/-- The loop meets the first item again, which changes nothing. -/
theorem largest_cons (gt : T → T → Bool) (first : T) (rest : List T) :
    largest gt (first :: rest) = some (rest.foldl (keepGreater gt) first) := by
  have same : keepGreater gt first first = first := ite_self first
  rw [largest, List.getElem?_cons_zero, Option.bind_eq_bind, Option.bind_some, List.foldl_cons,
    same]
  rfl

include irreflexive transitive in
/-- **`largest` returns an item of the list that no item of it is greater than.** -/
theorem largest_undominated (list : List T) (nonempty : list ≠ []) :
    ∃ x, largest gt list = some x ∧ Undominated gt list x := by
  cases list with
  | nil => exact absurd rfl nonempty
  | cons first rest =>
    refine ⟨_, largest_cons gt first rest, ?_⟩
    exact undominated_foldl irreflexive transitive (undominated_singleton irreflexive first) rest

end Order

/-- Numbers with a value that is not comparable to any, such as floats with `NaN`. -/
def gtNaN : Option ℤ → Option ℤ → Bool
  | some a, some b => b < a
  | _, _ => false

theorem largest_undominated_NaN :
    ∃ x, largest gtNaN [some 2, none, some 5, none, some 3] = some x ∧
      Undominated gtNaN [some 2, none, some 5, none, some 3] x := by
  apply largest_undominated
  · intro a
    cases a <;> simp [gtNaN]
  · intro a b c above below
    cases a <;> cases b <;> cases c <;> simp_all [gtNaN]
    omega
  · exact List.cons_ne_nil _ _

/-- On a linear order it is the maximum. -/
theorem largest_eq_maximum [LinearOrder T] (list : List T) :
    largest (fun a b => decide (a > b)) list = list.maximum := by
  cases list with
  | nil => rfl
  | cons first rest =>
    have irreflexive : ∀ a : T, decide (a > a) = false := by simp
    have transitive : ∀ a b c : T, decide (a > b) = true → decide (b > c) = true →
        decide (a > c) = true := by
      intro a b c above below
      rw [decide_eq_true_iff] at above below ⊢
      exact below.trans above
    obtain ⟨mem, not_gt⟩ := undominated_foldl irreflexive transitive
      (undominated_singleton irreflexive first) rest
    rw [largest_cons]
    refine (List.maximum_eq_coe_iff.2 ⟨mem, fun a inside => ?_⟩).symm
    exact not_lt.1 (decide_eq_false_iff_not.1 (not_gt a inside))

end CodeNotes.HelloWorld
