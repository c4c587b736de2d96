import Mathlib.Algebra.BigOperators.Field
import Mathlib.Algebra.Order.BigOperators.Group.Finset
import Mathlib.Algebra.Order.Field.Rat
import Mathlib.Tactic.Linarith
import Mathlib.Tactic.Ring
import LinearProgramming.Tableau.Basic

/-!
# Rows as linear equations

Over exact rationals a row of cells with its constant is a linear equation in the columns. What an
assignment of the columns leaves of the constant is the row's *residual*: the equation holds where
the residual is zero, and for an objective row the residual is what the objective is worth.

The residual is linear in the row, and every operation on rows is a linear combination. So each
operation needs one formula for its cells, and what it does to an equation follows from that.

## Cells past the end

A cell past the end of a row reads as zero. The formulas below therefore hold at every position
as soon as the rows have equal lengths, and none of them carries a bound on the column.
-/

open Finset

namespace LinearProgramming

/-! ## Sums of products -/

theorem Scalar.sum_eq (xs : List ℚ) : Scalar.sum xs = xs.sum := by
  rw [Scalar.sum, List.sum_eq_foldl]
  rfl

theorem Scalar.abs_eq (x : ℚ) : Scalar.abs x = |x| := by
  change (if 0 ≤ x then x else -x) = |x|
  split_ifs with h
  · exact (abs_of_nonneg h).symm
  · exact (abs_of_neg (not_le.mp h)).symm

theorem Scalar.snap_zero (x : ℚ) : Scalar.snap 0 x = x := by
  rw [Scalar.snap, Scalar.abs_eq]
  split_ifs with hzero
  · exact (abs_nonpos_iff.mp hzero).symm
  · rfl

/-- A sum in which only the entry at position `i` counts. -/
theorem sum_map_eq_single {β : Type} {l : List β} {i : ℕ} {a : β} (ha : l[i]? = some a) {f : β → ℚ}
    (hzero : ∀ {k : ℕ} {b : β}, l[k]? = some b → k ≠ i → f b = 0) : (l.map f).sum = f a := by
  induction l generalizing i with
  | nil => simp at ha
  | cons b l ih =>
    rw [List.map_cons, List.sum_cons]
    cases i with
    | zero =>
      obtain rfl : b = a := by simpa using ha
      have hrest : ∀ c ∈ l, f c = 0 := by
        intro c hc
        obtain ⟨k, hk⟩ := List.mem_iff_getElem?.mp hc
        exact hzero (k := k + 1) hk (Nat.succ_ne_zero k)
      rw [List.sum_eq_zero (by simpa using hrest), add_zero]
    | succ i =>
      rw [hzero (k := 0) rfl (Nat.succ_ne_zero i).symm, zero_add]
      exact ih ha fun {k _} hb hk ↦ hzero (k := k + 1) hb (by omega)

/-! ## Cells -/

section Cell

variable {α : Type} [Scalar α] {row : List α} {j : ℕ}

theorem cellAt_eq_zero (h : row.length ≤ j) : cellAt row j = 0 := by
  rw [cellAt, List.getElem?_eq_none h]
  rfl

@[simp] theorem cellAt_nil (j : ℕ) : cellAt ([] : List α) j = 0 := cellAt_eq_zero (Nat.zero_le j)

theorem cellAt_eq_getElem (h : j < row.length) : cellAt row j = row[j] := by
  rw [cellAt, List.getElem?_eq_getElem h]
  rfl

theorem getElem?_eq_cellAt (h : j < row.length) : row[j]? = some (cellAt row j) := by
  rw [cellAt_eq_getElem h]
  exact List.getElem?_eq_getElem h

theorem cellAt_map_of_getElem? {β : Type} {l : List β} {a : β} (h : l[j]? = some a) (f : β → α) :
    cellAt (l.map f) j = f a := by
  rw [cellAt, List.getElem?_map, h]
  rfl

theorem forall_mem_iff_cellAt {P : α → Prop} {n : ℕ} (hlen : row.length = n) :
    (∀ x ∈ row, P x) ↔ ∀ c < n, P (cellAt row c) := by
  constructor
  · intro h c hc
    rw [cellAt_eq_getElem (hlen.symm ▸ hc)]
    exact h _ (List.getElem_mem _)
  · intro h x hx
    obtain ⟨c, hc, rfl⟩ := List.getElem_of_mem hx
    rw [← cellAt_eq_getElem hc]
    exact h c (hlen ▸ hc)

theorem eq_of_cellAt {row' : List α} {n : ℕ} (h : row.length = n) (h' : row'.length = n)
    (hcell : ∀ c < n, cellAt row c = cellAt row' c) : row = row' := by
  refine List.ext_getElem (h.trans h'.symm) fun c hc hc' ↦ ?_
  rw [← cellAt_eq_getElem hc, ← cellAt_eq_getElem hc']
  exact hcell c (h ▸ hc)

theorem lt_length_of_cellAt_ne_zero (h : cellAt row j ≠ 0) : j < row.length := by
  by_contra hj
  exact h (cellAt_eq_zero (not_lt.mp hj))

theorem cellAt_map {f : α → α} (hf : f 0 = 0) (row : List α) (j : ℕ) :
    cellAt (row.map f) j = f (cellAt row j) := by
  by_cases hj : j < row.length
  · rw [cellAt_eq_getElem hj, cellAt_eq_getElem (by rwa [List.length_map]), List.getElem_map]
  · rw [cellAt_eq_zero (not_lt.mp hj), cellAt_eq_zero (by rw [List.length_map]; omega), hf]

theorem cellAt_set (hj : j < row.length) (x : α) (k : ℕ) :
    cellAt (row.set j x) k = if k = j then x else cellAt row k := by
  rw [cellAt, cellAt, List.getElem?_set]
  by_cases hkj : k = j
  · rw [if_pos hkj.symm, if_pos hkj, if_pos hj]
    rfl
  · rw [if_neg (Ne.symm hkj), if_neg hkj]

theorem cellAt_take {n : ℕ} (h : j < n) (row : List α) : cellAt (row.take n) j = cellAt row j := by
  rw [cellAt, cellAt, List.getElem?_take_of_lt h]

theorem cellAt_append_left {rest : List α} (h : j < row.length) :
    cellAt (row ++ rest) j = cellAt row j := by
  rw [cellAt, cellAt, List.getElem?_append_left h]

theorem cellAt_append_right {rest : List α} (h : row.length ≤ j) :
    cellAt (row ++ rest) j = cellAt rest (j - row.length) := by
  rw [cellAt, cellAt, List.getElem?_append_right h]

theorem cellAt_append_singleton {n : ℕ} (h : row.length = n) (x : α) :
    cellAt (row ++ [x]) n = x := by
  rw [cellAt_append_right h.le, h, Nat.sub_self]
  rfl

end Cell

/-- A dot product as a sum over positions. The second list is read as zero past its end. -/
theorem Scalar.dot_eq_sum {n : ℕ} {xs : List ℚ} (h : xs.length ≤ n) (ys : List ℚ) :
    Scalar.dot xs ys = ∑ j ∈ range n, cellAt xs j * cellAt ys j := by
  rw [Scalar.dot, Scalar.sum_eq]
  induction xs generalizing n ys with
  | nil =>
    rw [List.zipWith_nil_left, List.sum_nil, sum_eq_zero]
    intro j _
    rw [cellAt_nil, zero_mul]
  | cons x xs ih =>
    obtain ⟨n, rfl⟩ : ∃ m, n = m + 1 := ⟨n - 1, by rw [List.length_cons] at h; omega⟩
    have hx : ∀ j, cellAt (x :: xs) (j + 1) = cellAt xs j := fun _ ↦ rfl
    rw [sum_range_succ']
    cases ys with
    | nil =>
      rw [List.zipWith_nil_right, List.sum_nil, cellAt_nil, mul_zero, add_zero, sum_eq_zero]
      intro j _
      rw [cellAt_nil, mul_zero]
    | cons y ys =>
      have hy : ∀ j, cellAt (y :: ys) (j + 1) = cellAt ys j := fun _ ↦ rfl
      rw [List.zipWith_cons_cons, List.sum_cons, ih (Nat.le_of_succ_le_succ h), add_comm]
      simp only [hx, hy]
      rfl

theorem Scalar.dot_map_neg (xs ys : List ℚ) :
    Scalar.dot (xs.map (-·)) ys = -Scalar.dot xs ys := by
  have hterm : ∀ c ∈ range xs.length,
      cellAt (xs.map (-·)) c * cellAt ys c = -(cellAt xs c * cellAt ys c) := by
    intro c _
    rw [cellAt_map (f := fun x ↦ -x) neg_zero, neg_mul]
  rw [Scalar.dot_eq_sum (n := xs.length) (by rw [List.length_map]),
    Scalar.dot_eq_sum (le_refl xs.length), sum_congr rfl hterm, sum_neg_distrib]

@[simp] theorem Scalar.dot_nil_left (ys : List ℚ) : Scalar.dot [] ys = 0 := rfl

@[simp] theorem Scalar.dot_nil_right (xs : List ℚ) : Scalar.dot xs [] = 0 := by
  rw [Scalar.dot, List.zipWith_nil_right]
  rfl

theorem Scalar.dot_cons_cons (x y : ℚ) (xs ys : List ℚ) :
    Scalar.dot (x :: xs) (y :: ys) = x * y + Scalar.dot xs ys := by
  rw [Scalar.dot, Scalar.sum_eq, List.zipWith_cons_cons, List.sum_cons, ← Scalar.sum_eq,
    ← Scalar.dot]

theorem Scalar.dot_map_map {β : Type} (f g : β → ℚ) (l : List β) :
    Scalar.dot (l.map f) (l.map g) = (l.map fun a ↦ f a * g a).sum := by
  induction l with
  | nil => rfl
  | cons a l ih => rw [List.map_cons, List.map_cons, Scalar.dot_cons_cons, ih, List.map_cons,
      List.sum_cons]

/-! ## Row operations, cell by cell -/

section Lengths

variable {α : Type} [Scalar α] {row source : List α}

theorem length_subtractMultiple (h : source.length = row.length) (f : α) :
    (subtractMultiple f source row).length = row.length := by
  rw [subtractMultiple, List.length_zipWith, h, min_self]

theorem cellAt_subtractMultiple_of_lt (h : source.length = row.length) (f : α) {k : ℕ}
    (hk : k < row.length) :
    cellAt (subtractMultiple f source row) k = cellAt row k - f * cellAt source k := by
  rw [cellAt_eq_getElem hk, cellAt_eq_getElem (h ▸ hk : k < source.length),
    cellAt_eq_getElem (by rwa [length_subtractMultiple h])]
  exact List.getElem_zipWith

theorem length_clearColumn (h : source.length = row.length) (j : ℕ) :
    (clearColumn source j row).length = row.length := by
  rw [clearColumn]
  split_ifs
  · rw [List.length_set, length_subtractMultiple h]
  · rfl

@[simp] theorem length_scaleTo (j : ℕ) (row : List α) : (scaleTo j row).length = row.length := by
  rw [scaleTo, List.length_set, List.length_map]

theorem length_priceOut {n : ℕ} {rows : List (TableauRow α)}
    (h : ∀ row ∈ rows, row.cells.length = n + 1) {obj : List α} (hobj : obj.length = n + 1) :
    (priceOut rows obj).length = n + 1 := by
  induction rows generalizing obj with
  | nil => exact hobj
  | cons row rows ih =>
    rw [priceOut, List.foldl_cons, ← priceOut]
    have hrow : row.cells.length = obj.length := by rw [h row List.mem_cons_self, hobj]
    refine ih (fun a ha ↦ h a (List.mem_cons_of_mem _ ha)) ?_
    split_ifs
    · rw [length_subtractMultiple hrow, hobj]
    · exact hobj

end Lengths

section Cells

variable {row source : List ℚ}

theorem cellAt_subtractMultiple (h : source.length = row.length) (f : ℚ) (k : ℕ) :
    cellAt (subtractMultiple f source row) k = cellAt row k - f * cellAt source k := by
  by_cases hk : k < row.length
  · exact cellAt_subtractMultiple_of_lt h f hk
  · rw [cellAt_eq_zero (by rw [length_subtractMultiple h]; omega),
      cellAt_eq_zero (not_lt.mp hk), cellAt_eq_zero (h ▸ not_lt.mp hk : source.length ≤ k),
      mul_zero, sub_zero]

/-- Clearing a column subtracts a multiple of the source. That the pivot cell is written as an exact
zero and that a row with a zero there is not touched make no difference over exact numbers. -/
theorem cellAt_clearColumn (h : source.length = row.length) {j : ℕ} (hone : cellAt source j = 1)
    (k : ℕ) :
    cellAt (clearColumn source j row) k = cellAt row k - cellAt row j * cellAt source k := by
  rw [clearColumn]
  split_ifs with hj
  · have hlen : j < (subtractMultiple (cellAt row j) source row).length := by
      rw [length_subtractMultiple h, ← h]
      exact lt_length_of_cellAt_ne_zero (by rw [hone]; exact one_ne_zero)
    rw [cellAt_set hlen]
    split_ifs with hkj
    · rw [hkj, hone, mul_one, sub_self]
    · exact cellAt_subtractMultiple h _ k
  · have hzero : cellAt row j = 0 := by simpa using hj
    rw [hzero, zero_mul, sub_zero]

theorem cellAt_scaleTo {j : ℕ} (hj : cellAt row j ≠ 0) (k : ℕ) :
    cellAt (scaleTo j row) k = cellAt row k / cellAt row j := by
  rw [scaleTo, cellAt_set (by rw [List.length_map]; exact lt_length_of_cellAt_ne_zero hj)]
  split_ifs with hkj
  · rw [hkj, div_self hj]
  · exact cellAt_map (f := fun x ↦ x / cellAt row j) (zero_div _) row k

end Cells

/-! ## The residual -/

/-- What the assignment `u` of the columns leaves of the constant of a row with `n` columns. -/
def residual (n : ℕ) (cells : List ℚ) (u : ℕ → ℚ) : ℚ :=
  cellAt cells n - ∑ j ∈ range n, cellAt cells j * u j

section Residual

variable {n : ℕ} {row source cells : List ℚ} {u : ℕ → ℚ}

theorem residual_eq_zero_iff :
    residual n cells u = 0 ↔ ∑ j ∈ range n, cellAt cells j * u j = cellAt cells n := by
  rw [residual, sub_eq_zero, eq_comm]

/-- The residual is linear: whatever is subtracted cell by cell is subtracted from it. -/
theorem residual_of_cellAt_eq_sub {f : ℚ}
    (h : ∀ k, cellAt cells k = cellAt row k - f * cellAt source k) :
    residual n cells u = residual n row u - f * residual n source u := by
  have hterm : ∀ j, cellAt cells j * u j = cellAt row j * u j - f * (cellAt source j * u j) := by
    intro j
    rw [h j]
    ring
  rw [residual, residual, residual, h n, sum_congr rfl fun j _ ↦ hterm j, sum_sub_distrib,
    ← mul_sum]
  ring

theorem residual_clearColumn (h : source.length = row.length) {j : ℕ} (hone : cellAt source j = 1) :
    residual n (clearColumn source j row) u
      = residual n row u - cellAt row j * residual n source u :=
  residual_of_cellAt_eq_sub (cellAt_clearColumn h hone)

theorem residual_scaleTo {j : ℕ} (hj : cellAt row j ≠ 0) :
    residual n (scaleTo j row) u = residual n row u / cellAt row j := by
  have hterm : ∀ k, cellAt (scaleTo j row) k * u k = cellAt row k * u k / cellAt row j := by
    intro k
    rw [cellAt_scaleTo hj k, div_mul_eq_mul_div]
  rw [residual, residual, cellAt_scaleTo hj n, sum_congr rfl fun k _ ↦ hterm k, ← sum_div,
    sub_div]

end Residual

/-! ## Where the rows stand

A trace keeps the rows of a tableau and its objective row as one table, and a program stores nothing
else of the cells. -/

namespace Tableau

variable {α : Type} {t : Tableau α} {i : ℕ} {a : TableauRow α}

theorem getElem?_basis (ha : t.rows[i]? = some a) : t.basis[i]? = some a.basic := by
  rw [basis, List.getElem?_map, ha]
  rfl

theorem getElem?_grid (ha : t.rows[i]? = some a) : t.grid[i]? = some a.cells := by
  have hlt := (List.getElem?_eq_some_iff.mp ha).1
  rw [grid, List.getElem?_append_left (by rwa [List.length_map]), List.getElem?_map, ha]
  rfl

theorem getElem?_grid_numRows (t : Tableau α) : t.grid[t.numRows]? = some t.objective := by
  have hlen : (t.rows.map (·.cells)).length = t.numRows := List.length_map ..
  rw [grid, List.getElem?_append_right (Nat.le_of_eq hlen), hlen, Nat.sub_self]
  rfl

theorem length_grid (t : Tableau α) : t.grid.length = t.numRows + 1 := by
  rw [grid, List.length_append, List.length_map, List.length_singleton, numRows]

theorem forall_mem_grid_iff {P : List α → Prop} :
    (∀ cells ∈ t.grid, P cells) ↔ (∀ a ∈ t.rows, P a.cells) ∧ P t.objective := by
  rw [grid, List.forall_mem_append, List.forall_mem_map, List.forall_mem_singleton]

end Tableau

end LinearProgramming
