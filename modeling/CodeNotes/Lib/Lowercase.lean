import Mathlib.Tactic

/-!
# Lower-casing with the final sigma

Unicode lower-casing maps every character by a table, but for the capital sigma: at the end of a
word it becomes the final sigma.  Whether it ends a word depends on the text around it, so that a
part of a text is lower-cased in a context (`lowerIn`).  A text without exposed capital sigmas is
lower-cased the same way in every context (`lowerIn_of_settled`); any other one is not
(`exists_context_of_exposed`).
-/

namespace CodeNotes.Lowercase

/-- The Unicode data that lower-casing reads. -/
structure CaseTables where
  /-- The lower-case mapping of a character other than the capital sigma. -/
  lower : Char → List Char
  cased : Char → Bool
  caseIgnorable : Char → Bool
  lower_a : lower 'a' = ['a']
  cased_a : cased 'a' = true
  caseIgnorable_a : caseIgnorable 'a' = false

/-- The tables restricted to ASCII. -/
def ascii : CaseTables where
  lower c := [c.toLower]
  cased c := c.isAlpha
  caseIgnorable c := [0x27, 0x2E, 0x3A, 0x5E, 0x60].contains c.toNat
  lower_a := by decide
  cased_a := by decide
  caseIgnorable_a := by decide

instance : Inhabited CaseTables := ⟨ascii⟩

namespace CaseTables

variable (t : CaseTables)

/-- After any case-ignorable characters comes a cased one. -/
def ignorableThenCased : List Char → Bool
  | [] => false
  | c :: rest => if t.caseIgnorable c then ignorableThenCased rest else t.cased c

/-- A capital sigma ends a word: `before` is the text before it, read backwards. -/
def finalSigma (before after : List Char) : Bool :=
  t.ignorableThenCased before && !t.ignorableThenCased after

def mapUppercaseSigma (before after : List Char) : Char :=
  if t.finalSigma before after then 'ς' else 'σ'

/-- The lower-case text between `before`, read backwards, and `after`. -/
def lowerIn (after : List Char) : List Char → List Char → List Char
  | _, [] => []
  | before, c :: rest =>
    (if c = 'Σ' then [t.mapUppercaseSigma before (rest ++ after)] else t.lower c) ++
      lowerIn after (c :: before) rest

def toLowercase (text : List Char) : List Char := t.lowerIn [] [] text

/-! ### Contexts -/

theorem lowerIn_append (after before text text' : List Char) :
    t.lowerIn after before (text ++ text') =
      t.lowerIn (text' ++ after) before text ++ t.lowerIn after (text.reverse ++ before) text' := by
  induction text generalizing before with
  | nil => rfl
  | cons c text ih => simp [lowerIn, ih]

/-- A part of a text is lower-cased in its context. -/
theorem toLowercase_append (left text right : List Char) :
    t.toLowercase (left ++ text ++ right) =
      t.lowerIn (text ++ right) [] left ++ t.lowerIn right left.reverse text ++
        t.lowerIn [] (text.reverse ++ left.reverse) right := by
  rw [toLowercase, lowerIn_append, lowerIn_append]
  simp

theorem ignorableThenCased_append (text text' : List Char) :
    t.ignorableThenCased (text ++ text') =
      if text.all t.caseIgnorable then t.ignorableThenCased text'
      else t.ignorableThenCased text := by
  induction text with
  | nil => rfl
  | cons c text ih =>
    by_cases ignorable : t.caseIgnorable c
    · simp [ignorableThenCased, ignorable, ih]
    · simp [ignorableThenCased, ignorable]

theorem ignorableThenCased_of_all {text : List Char} (all : text.all t.caseIgnorable = true) :
    t.ignorableThenCased text = false := by
  have split := t.ignorableThenCased_append text []
  rwa [List.append_nil, if_pos all] at split

theorem ignorableThenCased_a : t.ignorableThenCased ['a'] = true := by
  simp [ignorableThenCased, t.caseIgnorable_a, t.cased_a]

/-- The image of a capital sigma between `u` and `v` may change with the text around them: it ends a
word and nothing but case-ignorable characters follow, or nothing else comes before it and no word
goes on after it. -/
def Exposed (u v : List Char) : Prop :=
  (t.ignorableThenCased u.reverse = true ∧ v.all t.caseIgnorable = true) ∨
    (u.all t.caseIgnorable = true ∧ t.ignorableThenCased v = false)

/-- No capital sigma of the text is exposed. -/
def Settled (text : List Char) : Prop := ∀ u v, text = u ++ 'Σ' :: v → ¬ t.Exposed u v

theorem settled_of_not_mem {text : List Char} (none : 'Σ' ∉ text) : t.Settled text := by
  rintro u v rfl
  simp at none

theorem sigma_of_not_exposed {u v : List Char} (hidden : ¬ t.Exposed u v)
    (before after : List Char) :
    t.mapUppercaseSigma (u.reverse ++ before) (v ++ after) = t.mapUppercaseSigma u.reverse v := by
  obtain ⟨first, second⟩ := not_or.1 hidden
  unfold mapUppercaseSigma finalSigma
  rw [ignorableThenCased_append, ignorableThenCased_append, List.all_reverse]
  by_cases blank : u.all t.caseIgnorable = true
  · -- the sigma is not final: a word goes on after it
    have goesOn : t.ignorableThenCased v = true := by simpa [blank] using second
    have bounded : ¬ v.all t.caseIgnorable = true := by
      intro all
      rw [t.ignorableThenCased_of_all all] at goesOn
      cases goesOn
    simp [bounded, goesOn]
  · by_cases word : t.ignorableThenCased u.reverse = true
    · have bounded : ¬ v.all t.caseIgnorable = true := by simpa [word] using first
      simp [blank, bounded]
    · simp [blank, word]

theorem lowerIn_of_settled {text : List Char} (settled : t.Settled text)
    (before after : List Char) :
    t.lowerIn after before text = t.toLowercase text := by
  suffices general : ∀ u v, text = u ++ v →
      t.lowerIn after (u.reverse ++ before) v = t.lowerIn [] u.reverse v from general [] text rfl
  intro u v split
  induction v generalizing u with
  | nil => rfl
  | cons c v ih =>
    have rest := ih (u ++ [c]) (by simp [split])
    rw [List.reverse_append, List.reverse_singleton, List.singleton_append, List.cons_append]
      at rest
    rw [lowerIn, lowerIn, rest, List.append_nil]
    congr 1
    split_ifs with sigma
    · subst sigma
      rw [t.sigma_of_not_exposed (settled u v split)]
    · rfl

/-! ### Exposed sigmas -/

section Count

variable {x : Char} {after after' : List Char}

/-- The part of a lower-case text that a single character gives. -/
theorem count_lowerIn_cons (c : Char) (before rest : List Char) :
    (t.lowerIn after before (c :: rest)).count x =
      (if c = 'Σ' then [t.mapUppercaseSigma before (rest ++ after)] else t.lower c).count x +
        (t.lowerIn after (c :: before) rest).count x := by
  rw [lowerIn, List.count_append]

/-- If every capital sigma that becomes `x` in one context does so in another, the second context
has at least as many `x`. -/
theorem count_lowerIn_le {text before before' : List Char}
    (keeps : ∀ u v, text = u ++ 'Σ' :: v →
      t.mapUppercaseSigma (u.reverse ++ before) (v ++ after) = x →
      t.mapUppercaseSigma (u.reverse ++ before') (v ++ after') = x) :
    (t.lowerIn after before text).count x ≤ (t.lowerIn after' before' text).count x := by
  induction text generalizing before before' with
  | nil => exact le_rfl
  | cons c text ih =>
    rw [count_lowerIn_cons, count_lowerIn_cons]
    apply Nat.add_le_add
    · split_ifs with sigma
      · subst sigma
        have head := keeps [] text rfl
        simp only [List.reverse_nil, List.nil_append] at head
        by_cases image : t.mapUppercaseSigma before (text ++ after) = x
        · rw [image, head image]
        · simp [image]
      · exact le_rfl
    · apply ih
      intro u v split
      have shifted := keeps (c :: u) v (by rw [split]; rfl)
      simpa using shifted

/-- It has more if some capital sigma becomes `x` in the second context only. -/
theorem count_lowerIn_lt {text before before' : List Char}
    (keeps : ∀ u v, text = u ++ 'Σ' :: v →
      t.mapUppercaseSigma (u.reverse ++ before) (v ++ after) = x →
      t.mapUppercaseSigma (u.reverse ++ before') (v ++ after') = x)
    {u v : List Char} (split : text = u ++ 'Σ' :: v)
    (lost : t.mapUppercaseSigma (u.reverse ++ before) (v ++ after) ≠ x)
    (gained : t.mapUppercaseSigma (u.reverse ++ before') (v ++ after') = x) :
    (t.lowerIn after before text).count x < (t.lowerIn after' before' text).count x := by
  subst split
  rw [lowerIn_append, lowerIn_append, List.count_append, List.count_append, count_lowerIn_cons,
    count_lowerIn_cons]
  have front : (t.lowerIn ('Σ' :: v ++ after) before u).count x ≤
      (t.lowerIn ('Σ' :: v ++ after') before' u).count x := by
    apply count_lowerIn_le
    intro u₁ v₁ split
    have whole := keeps u₁ (v₁ ++ 'Σ' :: v) (by rw [split]; simp)
    simpa using whole
  have back : (t.lowerIn after ('Σ' :: (u.reverse ++ before)) v).count x ≤
      (t.lowerIn after' ('Σ' :: (u.reverse ++ before')) v).count x := by
    apply count_lowerIn_le
    intro u₁ v₁ split
    have whole := keeps (u ++ 'Σ' :: u₁) v₁ (by rw [split]; simp)
    simpa using whole
  have middle : [t.mapUppercaseSigma (u.reverse ++ before) (v ++ after)].count x = 0 := by
    simp [lost]
  rw [if_pos rfl, if_pos rfl, middle, gained, List.count_singleton_self]
  omega

end Count

theorem lowerIn_a (after before : List Char) : t.lowerIn after before ['a'] = ['a'] := by
  rw [lowerIn, if_neg (by decide), t.lower_a]
  rfl

theorem mapUppercaseSigma_eq_final_iff (before after : List Char) :
    t.mapUppercaseSigma before after = 'ς' ↔
      t.ignorableThenCased before = true ∧ t.ignorableThenCased after = false := by
  unfold mapUppercaseSigma finalSigma
  cases t.ignorableThenCased before <;> cases t.ignorableThenCased after <;> decide

theorem mapUppercaseSigma_eq_small_iff (before after : List Char) :
    t.mapUppercaseSigma before after = 'σ' ↔
      (t.ignorableThenCased before = true → t.ignorableThenCased after = true) := by
  unfold mapUppercaseSigma finalSigma
  cases t.ignorableThenCased before <;> cases t.ignorableThenCased after <;> decide

/-- A letter after the text turns a final sigma into a small one. -/
theorem count_append_lt {u v : List Char} (word : t.ignorableThenCased u.reverse = true)
    (last : v.all t.caseIgnorable = true) :
    (t.toLowercase (u ++ 'Σ' :: v ++ ['a'])).count 'ς' <
      (t.toLowercase (u ++ 'Σ' :: v)).count 'ς' := by
  have line : t.toLowercase (u ++ 'Σ' :: v ++ ['a']) =
      t.lowerIn ['a'] [] (u ++ 'Σ' :: v) ++ ['a'] := by
    rw [toLowercase, lowerIn_append, lowerIn_a, List.append_nil]
  rw [line, List.count_append, show ['a'].count 'ς' = 0 by decide, Nat.add_zero]
  apply t.count_lowerIn_lt _ rfl
  · rw [List.append_nil, Ne, mapUppercaseSigma_eq_final_iff, ignorableThenCased_append, if_pos last,
      t.ignorableThenCased_a]
    simp
  · rw [List.append_nil, List.append_nil, mapUppercaseSigma_eq_final_iff]
    exact ⟨word, t.ignorableThenCased_of_all last⟩
  · intro u' v' _
    rw [List.append_nil, List.append_nil, mapUppercaseSigma_eq_final_iff,
      mapUppercaseSigma_eq_final_iff, ignorableThenCased_append, t.ignorableThenCased_a]
    split_ifs with all
    · simp
    · exact id

/-- A letter before the text turns a small sigma into a final one. -/
theorem count_cons_lt {u v : List Char} (first : u.all t.caseIgnorable = true)
    (ends : t.ignorableThenCased v = false) :
    (t.toLowercase ('a' :: (u ++ 'Σ' :: v))).count 'σ' <
      (t.toLowercase (u ++ 'Σ' :: v)).count 'σ' := by
  have line : t.toLowercase ('a' :: (u ++ 'Σ' :: v)) =
      'a' :: t.lowerIn [] ['a'] (u ++ 'Σ' :: v) := by
    rw [toLowercase, ← List.singleton_append, lowerIn_append, lowerIn_a]
    rfl
  rw [line, List.count_cons_of_ne (by decide)]
  apply t.count_lowerIn_lt _ rfl
  · rw [List.append_nil, Ne, mapUppercaseSigma_eq_small_iff, ignorableThenCased_append,
      List.all_reverse, if_pos first, t.ignorableThenCased_a, ends]
    simp
  · rw [List.append_nil, List.append_nil, mapUppercaseSigma_eq_small_iff,
      t.ignorableThenCased_of_all (by rw [List.all_reverse]; exact first)]
    simp
  · intro u' v' _
    rw [List.append_nil, List.append_nil, mapUppercaseSigma_eq_small_iff,
      mapUppercaseSigma_eq_small_iff, ignorableThenCased_append, t.ignorableThenCased_a]
    split_ifs with all
    · intro image _
      exact image rfl
    · exact id

/-- The lower-case text with an exposed sigma is missing from the lower-case text around it, for
some text around it. -/
theorem exists_context_of_exposed {u v : List Char} (exposed : t.Exposed u v) :
    ∃ left right : List Char, left ++ right = ['a'] ∧
      ¬ t.toLowercase (u ++ 'Σ' :: v) <:+: t.toLowercase (left ++ (u ++ 'Σ' :: v) ++ right) := by
  rcases exposed with ⟨word, last⟩ | ⟨first, ends⟩
  · refine ⟨[], ['a'], rfl, fun contained => ?_⟩
    have few := t.count_append_lt word last
    have many := contained.count_le 'ς'
    rw [List.nil_append] at many
    omega
  · refine ⟨['a'], [], rfl, fun contained => ?_⟩
    have few := t.count_cons_lt first ends
    have many := contained.count_le 'σ'
    rw [List.append_nil, List.singleton_append] at many
    omega

end CaseTables

end CodeNotes.Lowercase
