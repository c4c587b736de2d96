import LinearProgramming.Proofs.Tableau.Pivot

/-!
# Installing an objective

A new objective is written over the objective row and the basic columns are then cleared from it
one row at a time, always by the cell that is there at that moment. On canonical rows clearing one
basic column disturbs no other, so the factors are those of the row that was written, and the
result has a closed form.

The constraint rows only take part: their solutions stay the same, and on these solutions the
objective row is worth what the costs say.
-/

open Finset

namespace LinearProgramming

section PriceOut

variable {n : ℕ} {rows : List (TableauRow ℚ)}

/-- One step of clearing, cell by cell. A factor of zero is no exception: then nothing is
subtracted. -/
private theorem cellAt_priceOut_step {obj : List ℚ} {row : TableauRow ℚ}
    (h : row.cells.length = obj.length) (k : ℕ) :
    cellAt (if cellAt obj row.basic != 0
        then subtractMultiple (cellAt obj row.basic) row.cells obj else obj) k
      = cellAt obj k - cellAt obj row.basic * cellAt row.cells k := by
  split_ifs with hzero
  · exact cellAt_subtractMultiple h _ k
  · have hfactor : cellAt obj row.basic = 0 := by simpa using hzero
    rw [hfactor, zero_mul, sub_zero]

private theorem length_priceOut_step {obj : List ℚ} {row : TableauRow ℚ}
    (h : row.cells.length = obj.length) :
    (if cellAt obj row.basic != 0
        then subtractMultiple (cellAt obj row.basic) row.cells obj else obj).length
      = obj.length := by
  split_ifs
  · exact length_subtractMultiple h _
  · rfl

/-- Clearing subtracts multiples of the rows, so on their solutions the row is worth the same. -/
theorem residual_priceOut {u : ℕ → ℚ} (h : ∀ row ∈ rows, row.cells.length = n + 1)
    (hu : ∀ row ∈ rows, residual n row.cells u = 0) {obj : List ℚ} (hobj : obj.length = n + 1) :
    residual n (priceOut rows obj) u = residual n obj u := by
  induction rows generalizing obj with
  | nil => rfl
  | cons row rows ih =>
    rw [priceOut, List.foldl_cons, ← priceOut]
    have hrow : row.cells.length = obj.length := by rw [h row List.mem_cons_self, hobj]
    rw [ih (fun a ha ↦ h a (List.mem_cons_of_mem _ ha))
        (fun a ha ↦ hu a (List.mem_cons_of_mem _ ha)) (by rw [length_priceOut_step hrow, hobj]),
      residual_of_cellAt_eq_sub (cellAt_priceOut_step hrow), hu row List.mem_cons_self, mul_zero,
      sub_zero]

/-- **Pricing out in closed form.** Every cell loses, for each row, the cell that was written in the
row's basic column times the row's own cell. -/
theorem cellAt_priceOut (h : CanonicalRows n rows) {obj : List ℚ} (hobj : obj.length = n + 1)
    (k : ℕ) :
    cellAt (priceOut rows obj) k
      = cellAt obj k - (rows.map fun row ↦ cellAt obj row.basic * cellAt row.cells k).sum := by
  induction rows generalizing obj with
  | nil => rw [List.map_nil, List.sum_nil, sub_zero]; rfl
  | cons row rows ih =>
    have hrow : row.cells.length = obj.length := by rw [h.length_cells (i := 0) rfl, hobj]
    have hstep := cellAt_priceOut_step hrow
    rw [priceOut, List.foldl_cons, ← priceOut,
      ih h.tail (by rw [length_priceOut_step hrow, hobj]), hstep k, List.map_cons, List.sum_cons,
      ← sub_sub]
    -- The basic columns of the later rows are zero in this one, so their factors are untouched.
    congr 2
    refine List.map_congr_left fun a ha ↦ ?_
    obtain ⟨i, hi⟩ := List.mem_iff_getElem?.mp ha
    have hzero : cellAt row.cells a.basic = 0 :=
      h.unit_of_ne (i := i + 1) (k := 0) hi rfl (Nat.succ_ne_zero i).symm
    rw [hstep a.basic, hzero, mul_zero, sub_zero]

theorem CanonicalRows.sum_map_basic (h : CanonicalRows n rows) {i : ℕ} {a : TableauRow ℚ}
    (ha : rows[i]? = some a) (f : TableauRow ℚ → ℚ) :
    (rows.map fun row ↦ f row * cellAt row.cells a.basic).sum = f a := by
  rw [sum_map_eq_single ha fun hb hne ↦ by rw [h.unit_of_ne ha hb hne, mul_zero], h.unit_self ha,
    mul_one]

theorem cellAt_priceOut_basic (h : CanonicalRows n rows) {obj : List ℚ}
    (hobj : obj.length = n + 1) {i : ℕ} {a : TableauRow ℚ} (ha : rows[i]? = some a) :
    cellAt (priceOut rows obj) a.basic = 0 := by
  rw [cellAt_priceOut h hobj, h.sum_map_basic ha fun row ↦ cellAt obj row.basic, sub_self]

end PriceOut

namespace Tableau

variable {n : ℕ} {t : Tableau ℚ} {costs : List ℚ}

theorem length_written (h : costs.length = n) :
    (costs.map (-·) ++ [0] : List ℚ).length = n + 1 := by
  rw [List.length_append, List.length_map, h, List.length_singleton]

theorem cellAt_written (h : costs.length = n) {c : ℕ} (hc : c < n) :
    cellAt (costs.map (-·) ++ [0] : List ℚ) c = -cellAt costs c := by
  rw [cellAt_append_left (by rwa [List.length_map, h]), cellAt_map (f := fun x ↦ -x) neg_zero]

theorem canonical_withCosts (h : CanonicalRows n t.rows) (hcosts : costs.length = n) :
    (t.withCosts costs).Canonical n where
  rows := h
  length_objective := length_priceOut h.length_of_mem (length_written hcosts)
  objective_basic ha := cellAt_priceOut_basic h (length_written hcosts) ha

theorem residual_written (hcosts : costs.length = n) (u : ℕ → ℚ) :
    residual n (costs.map (-·) ++ [0]) u = ∑ j ∈ range n, cellAt costs j * u j := by
  have hterm : ∀ j ∈ range n,
      cellAt (costs.map (-·) ++ [0]) j * u j = -(cellAt costs j * u j) := by
    intro j hj
    rw [cellAt_written hcosts (mem_range.mp hj), neg_mul]
  rw [residual, cellAt_append_singleton (by rw [List.length_map, hcosts]),
    sum_congr rfl hterm, sum_neg_distrib, zero_sub, neg_neg]

/-- **An installed objective is worth its costs** on the solutions of the rows. -/
theorem residual_withCosts (h : CanonicalRows n t.rows) (hcosts : costs.length = n) {u : ℕ → ℚ}
    (hu : ∀ row ∈ t.rows, residual n row.cells u = 0) :
    residual n (t.withCosts costs).objective u = ∑ j ∈ range n, cellAt costs j * u j := by
  rw [withCosts, residual_priceOut h.length_of_mem hu (length_written hcosts),
    residual_written hcosts]

end Tableau

end LinearProgramming
