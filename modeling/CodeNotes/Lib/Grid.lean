import Mathlib.Tactic

/-!
# Grids and nested loops

A grid is a rectangle of cells, stored row by row; reading or writing outside it fails (`none`).
`loop n` is the counting loop over a body that may fail, and `paint` the nested loop that assigns
every cell of a rectangle.  A grid is determined by its size and what its cells hold
(`Grid.ext_get`), and `paint` succeeds exactly when every value is there (`paint_eq_some`,
`paint_eq_none`).
-/

namespace CodeNotes

/-! ### Counting loops -/

/-- `for k in 0 until n`, over a body that may fail. -/
def loop {σ : Type*} (n : ℕ) (body : σ → ℕ → Option σ) (s : σ) : Option σ :=
  (List.range n).foldlM body s

section Loop

variable {σ : Type*} {body : σ → ℕ → Option σ}

@[simp] theorem loop_zero (s : σ) : loop 0 body s = some s := rfl

theorem loop_succ (n : ℕ) (s : σ) : loop (n + 1) body s = (loop n body s).bind (body · n) := by
  rw [loop, List.range_succ, List.foldlM_append]
  apply Option.bind_congr
  intro s' _
  rw [List.foldlM_cons]
  exact bind_pure _

/-- A loop whose body succeeds and moves the invariant on completes. -/
theorem loop_invariant {I : ℕ → σ → Prop} {n : ℕ}
    (step : ∀ k < n, ∀ s, I k s → ∃ s', body s k = some s' ∧ I (k + 1) s') {s : σ}
    (initial : I 0 s) :
    ∃ s', loop n body s = some s' ∧ I n s' := by
  induction n with
  | zero => exact ⟨s, rfl, initial⟩
  | succ n ih =>
    obtain ⟨t, looped, holds⟩ := ih fun k hk => step k (by omega)
    obtain ⟨s', stepped, holds'⟩ := step n (by omega) t holds
    exact ⟨s', by rw [loop_succ, looped, Option.bind_some, stepped], holds'⟩

/-- A loop with a round that always fails does not complete. -/
theorem loop_eq_none {n k : ℕ} (hk : k < n) (fails : ∀ s, body s k = none) (s : σ) :
    loop n body s = none := by
  induction n with
  | zero => omega
  | succ n ih =>
    rw [loop_succ]
    rcases Nat.lt_succ_iff_lt_or_eq.1 hk with earlier | rfl
    · rw [ih earlier, Option.bind_none]
    · cases loop k body s with
      | none => rfl
      | some t => exact fails t

end Loop

/-! ### Grids -/

structure Grid (α : Type*) where
  width : ℕ
  height : ℕ
  /-- Row after row. -/
  cells : List α
  length_cells : cells.length = width * height

namespace Grid

variable {α : Type*}

def get (g : Grid α) (x y : ℕ) : Option α :=
  if x < g.width ∧ y < g.height then g.cells[y * g.width + x]? else none

def put (g : Grid α) (x y : ℕ) (a : α) : Grid α where
  width := g.width
  height := g.height
  cells := g.cells.set (y * g.width + x) a
  length_cells := by rw [List.length_set, g.length_cells]

def set (g : Grid α) (x y : ℕ) (a : α) : Option (Grid α) :=
  if x < g.width ∧ y < g.height then some (g.put x y a) else none

/-- The grid that holds `f x y` in column `x` of row `y`. -/
def ofFn (width height : ℕ) (f : ℕ → ℕ → α) : Grid α where
  width := width
  height := height
  cells := (List.range (width * height)).map fun n => f (n % width) (n / width)
  length_cells := by rw [List.length_map, List.length_range]

theorem index_lt {w h x y : ℕ} (hx : x < w) (hy : y < h) : y * w + x < w * h := by
  calc y * w + x < y * w + w := by omega
    _ = w * (y + 1) := by ring
    _ ≤ w * h := Nat.mul_le_mul_left w hy

theorem index_inj {w x y x' y' : ℕ} (hx : x < w) (hx' : x' < w)
    (same : y * w + x = y' * w + x') : x = x' ∧ y = y' := by
  have column : x = x' := by
    have h := congrArg (· % w) same
    simpa [Nat.mul_add_mod_self_right, Nat.mod_eq_of_lt hx, Nat.mod_eq_of_lt hx'] using h
  subst column
  refine ⟨rfl, ?_⟩
  apply Nat.eq_of_mul_eq_mul_right (show 0 < w by omega)
  omega

theorem exists_get_iff (g : Grid α) (x y : ℕ) :
    (∃ a, g.get x y = some a) ↔ x < g.width ∧ y < g.height := by
  unfold get
  split_ifs with h
  · have inside : y * g.width + x < g.cells.length := by
      rw [g.length_cells]
      exact index_lt h.1 h.2
    simp [h, List.getElem?_eq_getElem inside]
  · simp [h]

theorem get_eq_none_iff (g : Grid α) (x y : ℕ) :
    g.get x y = none ↔ ¬ (x < g.width ∧ y < g.height) := by
  rw [← exists_get_iff, Option.eq_none_iff_forall_ne_some]
  push Not
  rfl

/-- The cell that was written holds the new value, the others keep theirs. -/
theorem get_put (g : Grid α) {x y : ℕ} (hx : x < g.width) (hy : y < g.height) (a : α) (x' y' : ℕ) :
    (g.put x y a).get x' y' = if x' = x ∧ y' = y then some a else g.get x' y' := by
  by_cases inside : x' < g.width ∧ y' < g.height
  · rw [get, get, put, if_pos inside, if_pos inside, List.getElem?_set]
    by_cases same : x' = x ∧ y' = y
    · obtain ⟨rfl, rfl⟩ := same
      rw [if_pos rfl, if_pos (by rw [g.length_cells]; exact index_lt hx hy), if_pos ⟨rfl, rfl⟩]
    · rw [if_neg same, if_neg]
      intro equal
      obtain ⟨column, row⟩ := index_inj hx inside.1 equal
      exact same ⟨column.symm, row.symm⟩
  · rw [get, get, put, if_neg inside, if_neg inside, if_neg]
    rintro ⟨rfl, rfl⟩
    exact inside ⟨hx, hy⟩

/-- Grids of one size that hold the same everywhere are equal. -/
theorem ext_get {g g' : Grid α} (width : g.width = g'.width) (height : g.height = g'.height)
    (same : ∀ x < g.width, ∀ y < g.height, g.get x y = g'.get x y) : g = g' := by
  obtain ⟨w, h, cells, length⟩ := g
  obtain ⟨w', h', cells', length'⟩ := g'
  obtain rfl : w = w' := width
  obtain rfl : h = h' := height
  have equal : cells = cells' := by
    apply List.ext_getElem?
    intro n
    by_cases hn : n < w * h
    · have positive : 0 < w := by
        apply Nat.pos_of_ne_zero
        rintro rfl
        simp at hn
      have column : n % w < w := Nat.mod_lt n positive
      have row : n / w < h := Nat.div_lt_of_lt_mul hn
      have cell := same (n % w) column (n / w) row
      rw [get, get, if_pos ⟨column, row⟩, if_pos ⟨column, row⟩] at cell
      dsimp only at cell
      rwa [Nat.div_add_mod'] at cell
    · rw [List.getElem?_eq_none (by omega), List.getElem?_eq_none (by omega)]
  subst equal
  rfl

theorem get_ofFn (width height : ℕ) (f : ℕ → ℕ → α) {x y : ℕ} (hx : x < width) (hy : y < height) :
    (ofFn width height f).get x y = some (f x y) := by
  have index := index_lt hx hy
  have column : (y * width + x) % width = x := by
    rw [Nat.mul_add_mod_self_right, Nat.mod_eq_of_lt hx]
  have row : (y * width + x) / width = y := by
    rw [Nat.add_comm, Nat.add_mul_div_right x y (by omega), Nat.div_eq_of_lt hx, Nat.zero_add]
  rw [get, ofFn, if_pos ⟨hx, hy⟩, List.getElem?_map, List.getElem?_range index, Option.map_some,
    column, row]

end Grid

/-! ### Painting a rectangle -/

/-- `for i in 0 until w, for j in 0 until h: g[i, j] = value(i, j)`. -/
def paint {α : Type*} (w h : ℕ) (value : ℕ → ℕ → Option α) (g : Grid α) : Option (Grid α) :=
  loop w (fun g i => loop h (fun g j => do g.set i j (← value i j)) g) g

section Paint

variable {α : Type*} {w h : ℕ} {value : ℕ → ℕ → Option α}

/-- A grid in which the cells of `done` hold their value and the others are those of `g`. -/
structure Painted (value : ℕ → ℕ → Option α) (g : Grid α) (done : ℕ → ℕ → Prop) (g' : Grid α) :
    Prop where
  width : g'.width = g.width
  height : g'.height = g.height
  new : ∀ x y, done x y → g'.get x y = value x y
  old : ∀ x y, ¬ done x y → g'.get x y = g.get x y

theorem Painted.congr {g g' : Grid α} {done done' : ℕ → ℕ → Prop}
    (painted : Painted value g done g')
    (same : ∀ x y, done' x y ↔ done x y) : Painted value g done' g' where
  width := painted.width
  height := painted.height
  new := fun x y h => painted.new x y ((same x y).1 h)
  old := fun x y h => painted.old x y fun h' => h ((same x y).2 h')

/-- The loops complete when every value is there. -/
theorem paint_eq_some {g : Grid α} (hw : w ≤ g.width) (hh : h ≤ g.height)
    (values : ∀ i < w, ∀ j < h, ∃ a, value i j = some a) :
    ∃ g', paint w h value g = some g' ∧ Painted value g (fun x y => x < w ∧ y < h) g' := by
  apply loop_invariant (I := fun i => Painted value g fun x y => x < i ∧ y < h)
  · intro i hi g₁ outer
    obtain ⟨g₂, looped, inner⟩ : ∃ g₂, loop h (fun g j => do g.set i j (← value i j)) g₁ = some g₂ ∧
        Painted value g (fun x y => x < i ∧ y < h ∨ x = i ∧ y < h) g₂ := by
      apply loop_invariant (I := fun j => Painted value g fun x y => x < i ∧ y < h ∨ x = i ∧ y < j)
      · intro j hj g₂ inner
        obtain ⟨a, ha⟩ := values i hi j hj
        have hx : i < g₂.width := by rw [inner.width]; omega
        have hy : j < g₂.height := by rw [inner.height]; omega
        refine ⟨g₂.put i j a, ?_, inner.width, inner.height, ?_, ?_⟩
        · rw [ha]
          simp [Grid.set, hx, hy]
        · intro x y done
          rw [g₂.get_put hx hy]
          split_ifs with same
          · rw [same.1, same.2, ha]
          · apply inner.new
            omega
        · intro x y fresh
          rw [g₂.get_put hx hy, if_neg (by omega)]
          apply inner.old
          omega
      · exact outer.congr fun x y => by omega
    exact ⟨g₂, looped, inner.congr fun x y => by omega⟩
  · exact ⟨rfl, rfl, by omega, fun _ _ _ => rfl⟩

/-- The loops fail when a value is missing. -/
theorem paint_eq_none {i j : ℕ} (hi : i < w) (hj : j < h) (missing : value i j = none)
    (g : Grid α) :
    paint w h value g = none := by
  apply loop_eq_none hi
  intro g'
  apply loop_eq_none hj
  intro g''
  rw [missing]
  rfl

end Paint

end CodeNotes
