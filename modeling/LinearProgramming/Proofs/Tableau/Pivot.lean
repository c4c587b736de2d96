import LinearProgramming.Proofs.Row

/-!
# Pivoting

A list of rows is *canonical* when it is solved for its basic columns: each of them is a unit
vector, one in its own row and zero in all others. A pivot on a cell that is not zero keeps the
rows canonical, trades one basic column for another, and changes neither the solutions of the rows
nor, on these solutions, what the objective row is worth.

## What the pivot element has to satisfy

Nothing here asks for a positive pivot element or for a smallest ratio. Both matter for the signs
of the constants only, and pivots that exchange an artificial variable for another column may have
neither.
-/

open Finset

namespace LinearProgramming

/-! ## Canonical rows -/

/-- Rows with `n` columns, solved for their basic columns. -/
structure CanonicalRows (n : ℕ) (rows : List (TableauRow ℚ)) : Prop where
  length_cells : ∀ {i : ℕ} {a : TableauRow ℚ}, rows[i]? = some a → a.cells.length = n + 1
  basic_lt : ∀ {i : ℕ} {a : TableauRow ℚ}, rows[i]? = some a → a.basic < n
  /-- A basic column is one in its own row and zero in the others. -/
  unit : ∀ {i k : ℕ} {a b : TableauRow ℚ}, rows[i]? = some a → rows[k]? = some b →
    cellAt b.cells a.basic = if k = i then 1 else 0

namespace CanonicalRows

variable {n : ℕ} {rows : List (TableauRow ℚ)} {row : TableauRow ℚ}

theorem tail (h : CanonicalRows n (row :: rows)) : CanonicalRows n rows where
  length_cells {i _} ha := h.length_cells (i := i + 1) ha
  basic_lt {i _} ha := h.basic_lt (i := i + 1) ha
  unit {i k _ _} ha hb := by
    rw [h.unit (i := i + 1) (k := k + 1) ha hb]
    simp only [Nat.add_right_cancel_iff]

theorem length_of_mem (h : CanonicalRows n rows) : ∀ row ∈ rows, row.cells.length = n + 1 := by
  intro row hrow
  obtain ⟨i, hi⟩ := List.mem_iff_getElem?.mp hrow
  exact h.length_cells hi

theorem unit_self (h : CanonicalRows n rows) {i : ℕ} {a : TableauRow ℚ} (ha : rows[i]? = some a) :
    cellAt a.cells a.basic = 1 := by
  rw [h.unit ha ha, if_pos rfl]

theorem unit_of_ne (h : CanonicalRows n rows) {i k : ℕ} {a b : TableauRow ℚ}
    (ha : rows[i]? = some a) (hb : rows[k]? = some b) (hne : k ≠ i) :
    cellAt b.cells a.basic = 0 := by
  rw [h.unit ha hb, if_neg hne]

theorem index_eq_of_basic_eq (h : CanonicalRows n rows) {i k : ℕ} {a b : TableauRow ℚ}
    (ha : rows[i]? = some a) (hb : rows[k]? = some b) (hab : a.basic = b.basic) : i = k := by
  by_contra hne
  have hzero : cellAt a.cells b.basic = 0 := h.unit_of_ne hb ha hne
  rw [← hab, h.unit_self ha] at hzero
  exact one_ne_zero hzero

/-- Rows are told apart by their basic columns. -/
theorem index_eq_iff (h : CanonicalRows n rows) {i k : ℕ} {a b : TableauRow ℚ}
    (ha : rows[i]? = some a) (hb : rows[k]? = some b) : k = i ↔ b.basic = a.basic := by
  constructor
  · rintro rfl
    rw [Option.some_inj.mp (ha.symm.trans hb)]
  · exact h.index_eq_of_basic_eq hb ha

end CanonicalRows

namespace Tableau

/-- The assignment `u` of the columns solves every constraint row. -/
def Holds (t : Tableau ℚ) (u : ℕ → ℚ) : Prop :=
  ∀ row ∈ t.rows, residual t.numColumns row.cells u = 0

/-- A tableau whose rows are canonical and whose objective row has been cleared of the basic
columns. -/
structure Canonical (n : ℕ) (t : Tableau ℚ) : Prop where
  rows : CanonicalRows n t.rows
  length_objective : t.objective.length = n + 1
  objective_basic : ∀ {i : ℕ} {a : TableauRow ℚ}, t.rows[i]? = some a →
    cellAt t.objective a.basic = 0

theorem numColumns_eq {n : ℕ} {t : Tableau ℚ} (h : t.objective.length = n + 1) :
    t.numColumns = n := by
  rw [numColumns, h, Nat.add_sub_cancel]

theorem holds_iff_getElem? {t : Tableau ℚ} {u : ℕ → ℚ} :
    t.Holds u ↔ ∀ (i : ℕ) (a : TableauRow ℚ), t.rows[i]? = some a →
      residual t.numColumns a.cells u = 0 := by
  constructor
  · intro h i a ha
    exact h a (List.mem_of_getElem? ha)
  · intro h a ha
    obtain ⟨i, hi⟩ := List.mem_iff_getElem?.mp ha
    exact h i a hi

theorem row_eq {t : Tableau ℚ} {i : ℕ} {a : TableauRow ℚ} (h : t.rows[i]? = some a) :
    t.row i = a.cells := by
  rw [row, h]
  rfl

/-! ## The rows after a pivot -/

section Pivot

variable {n : ℕ} {t : Tableau ℚ} {i j : ℕ} {p : TableauRow ℚ}

@[simp] theorem phase_pivot (t : Tableau ℚ) (i j : ℕ) : (t.pivot i j).phase = t.phase := rfl

/-- The row with number `k` after a pivot on row `i` and column `j`, whose row was `p`. -/
def pivotedRow (p : TableauRow ℚ) (i j k : ℕ) (row : TableauRow ℚ) : TableauRow ℚ :=
  if k = i then { basic := j, cells := scaleTo j p.cells }
  else { row with cells := clearColumn (scaleTo j p.cells) j row.cells }

theorem getElem?_rows_pivot (hp : t.rows[i]? = some p) (k : ℕ) :
    (t.pivot i j).rows[k]? = t.rows[k]?.map (pivotedRow p i j k) := by
  rw [pivot, List.getElem?_mapIdx, row_eq hp]
  rfl

theorem exists_of_getElem?_rows_pivot (hp : t.rows[i]? = some p) {k : ℕ} {b : TableauRow ℚ}
    (hb : (t.pivot i j).rows[k]? = some b) :
    ∃ a, t.rows[k]? = some a ∧ b = pivotedRow p i j k a := by
  rw [getElem?_rows_pivot hp, Option.map_eq_some_iff] at hb
  obtain ⟨a, ha, rfl⟩ := hb
  exact ⟨a, ha, rfl⟩

theorem objective_pivot (hp : t.rows[i]? = some p) :
    (t.pivot i j).objective = clearColumn (scaleTo j p.cells) j t.objective := by
  rw [pivot, row_eq hp]

theorem pivotedRow_self (p : TableauRow ℚ) (i j : ℕ) (row : TableauRow ℚ) :
    pivotedRow p i j i row = { basic := j, cells := scaleTo j p.cells } := by
  rw [pivotedRow, if_pos rfl]

theorem pivotedRow_of_ne {k : ℕ} (h : k ≠ i) (row : TableauRow ℚ) :
    pivotedRow p i j k row
      = { row with cells := clearColumn (scaleTo j p.cells) j row.cells } := by
  rw [pivotedRow, if_neg h]

theorem cellAt_scaleTo_self (hj : cellAt p.cells j ≠ 0) :
    cellAt (scaleTo j p.cells) j = 1 := by
  rw [cellAt_scaleTo hj, div_self hj]

/-- **The pivot formula.** Away from the pivot row every cell loses the product of its row's cell in
the pivot column with the scaled pivot row. -/
theorem cellAt_pivotedRow_of_ne {k : ℕ} (h : k ≠ i) {row : TableauRow ℚ}
    (hlen : p.cells.length = row.cells.length) (hj : cellAt p.cells j ≠ 0) (c : ℕ) :
    cellAt (pivotedRow p i j k row).cells c
      = cellAt row.cells c - cellAt row.cells j * (cellAt p.cells c / cellAt p.cells j) := by
  rw [pivotedRow_of_ne h, cellAt_clearColumn (by rw [length_scaleTo, hlen])
    (cellAt_scaleTo_self hj), cellAt_scaleTo hj]

theorem cellAt_objective_pivot (hp : t.rows[i]? = some p)
    (hlen : p.cells.length = t.objective.length) (hj : cellAt p.cells j ≠ 0) (c : ℕ) :
    cellAt (t.pivot i j).objective c
      = cellAt t.objective c - cellAt t.objective j * (cellAt p.cells c / cellAt p.cells j) := by
  rw [objective_pivot hp, cellAt_clearColumn (by rw [length_scaleTo, hlen])
    (cellAt_scaleTo_self hj), cellAt_scaleTo hj]

/-! ## What a pivot preserves -/

theorem length_objective_pivot (hp : t.rows[i]? = some p)
    (hlen : p.cells.length = t.objective.length) :
    (t.pivot i j).objective.length = t.objective.length := by
  rw [objective_pivot hp, length_clearColumn (by rw [length_scaleTo, hlen])]

/-- **A pivot keeps the rows canonical.** The entering column becomes the unit vector of the pivot
row; every other basic column has a zero in that row and stays as it is. -/
theorem canonicalRows_pivot (h : CanonicalRows n t.rows) (hp : t.rows[i]? = some p) (hjn : j < n)
    (hj : cellAt p.cells j ≠ 0) : CanonicalRows n (t.pivot i j).rows where
  length_cells {k b} hb := by
    obtain ⟨a, ha, rfl⟩ := exists_of_getElem?_rows_pivot hp hb
    have hlen : p.cells.length = a.cells.length := by rw [h.length_cells hp, h.length_cells ha]
    rcases eq_or_ne k i with rfl | hki
    · rw [pivotedRow_self, length_scaleTo, h.length_cells hp]
    · rw [pivotedRow_of_ne hki, length_clearColumn (by rw [length_scaleTo, hlen]),
        h.length_cells ha]
  basic_lt {k b} hb := by
    obtain ⟨a, ha, rfl⟩ := exists_of_getElem?_rows_pivot hp hb
    rcases eq_or_ne k i with rfl | hki
    · rwa [pivotedRow_self]
    · rw [pivotedRow_of_ne hki]
      exact h.basic_lt (a := a) ha
  unit {l k c b} hc hb := by
    obtain ⟨a', ha', rfl⟩ := exists_of_getElem?_rows_pivot hp hc
    obtain ⟨a, ha, rfl⟩ := exists_of_getElem?_rows_pivot hp hb
    have hlen : p.cells.length = a.cells.length := by rw [h.length_cells hp, h.length_cells ha]
    -- Which of the two rows is the pivot row: the one whose column is asked about, the one the cell
    -- is in, both or neither.
    rcases eq_or_ne i l with rfl | hli <;> rcases eq_or_ne i k with rfl | hki
    · rw [pivotedRow_self, pivotedRow_self, cellAt_scaleTo_self hj, if_pos rfl]
    · rw [pivotedRow_self, cellAt_pivotedRow_of_ne hki.symm hlen hj, div_self hj, mul_one,
        sub_self, if_neg hki.symm]
    · rw [pivotedRow_of_ne hli.symm, pivotedRow_self, cellAt_scaleTo hj, h.unit_of_ne ha' hp hli,
        zero_div, if_neg hli]
    · rw [pivotedRow_of_ne hli.symm, cellAt_pivotedRow_of_ne hki.symm hlen hj,
        h.unit_of_ne ha' hp hli, zero_div, mul_zero, sub_zero, h.unit ha' ha]

/-- A pivot keeps the tableau canonical: the basic columns, which are zero in the objective row,
have zeros in the pivot row too, and the entering one is cleared. -/
theorem canonical_pivot (h : t.Canonical n) (hp : t.rows[i]? = some p) (hjn : j < n)
    (hj : cellAt p.cells j ≠ 0) : (t.pivot i j).Canonical n where
  rows := canonicalRows_pivot h.rows hp hjn hj
  length_objective := by
    rw [length_objective_pivot hp (by rw [h.rows.length_cells hp, h.length_objective]),
      h.length_objective]
  objective_basic {k b} hb := by
    obtain ⟨a, ha, rfl⟩ := exists_of_getElem?_rows_pivot hp hb
    rw [cellAt_objective_pivot hp (by rw [h.rows.length_cells hp, h.length_objective]) hj]
    rcases eq_or_ne k i with rfl | hki
    · rw [pivotedRow_self, div_self hj, mul_one, sub_self]
    · rw [pivotedRow_of_ne hki, h.objective_basic ha, h.rows.unit_of_ne ha hp hki.symm, zero_div,
        mul_zero, sub_zero]

theorem numColumns_pivot (h : t.Canonical n) (hp : t.rows[i]? = some p) :
    (t.pivot i j).numColumns = t.numColumns := by
  rw [numColumns, numColumns,
    length_objective_pivot hp (by rw [h.rows.length_cells hp, h.length_objective])]

/-- **A pivot changes no solution.** The pivot row is scaled by a number that is not zero, and a
multiple of it is subtracted from each of the others. -/
theorem holds_pivot_iff (h : t.Canonical n) (hp : t.rows[i]? = some p)
    (hj : cellAt p.cells j ≠ 0) {u : ℕ → ℚ} : (t.pivot i j).Holds u ↔ t.Holds u := by
  have hpivot : residual t.numColumns (scaleTo j p.cells) u
      = residual t.numColumns p.cells u / cellAt p.cells j := residual_scaleTo hj
  have hother : ∀ {k : ℕ} {a : TableauRow ℚ}, t.rows[k]? = some a → k ≠ i →
      residual t.numColumns (pivotedRow p i j k a).cells u
        = residual t.numColumns a.cells u
          - cellAt a.cells j * (residual t.numColumns p.cells u / cellAt p.cells j) := by
    intro k a ha hki
    rw [pivotedRow_of_ne hki, residual_clearColumn
      (by rw [length_scaleTo, h.rows.length_cells hp, h.rows.length_cells ha])
      (cellAt_scaleTo_self hj), hpivot]
  rw [holds_iff_getElem?, holds_iff_getElem?, numColumns_pivot h hp]
  constructor
  · intro hu
    -- The pivot row first: what is left of the others is told by what is left of it.
    have hzero : residual t.numColumns p.cells u = 0 := by
      have hi := hu i (pivotedRow p i j i p) (by rw [getElem?_rows_pivot hp, hp]; rfl)
      rw [pivotedRow_self, hpivot, div_eq_zero_iff] at hi
      exact hi.resolve_right hj
    intro k a ha
    rcases eq_or_ne k i with rfl | hki
    · rwa [Option.some_inj.mp (ha.symm.trans hp)]
    · have hk := hu k (pivotedRow p i j k a) (by rw [getElem?_rows_pivot hp, ha]; rfl)
      rwa [hother ha hki, hzero, zero_div, mul_zero, sub_zero] at hk
  · intro hu k b hb
    obtain ⟨a, ha, rfl⟩ := exists_of_getElem?_rows_pivot hp hb
    rcases eq_or_ne k i with rfl | hki
    · rw [pivotedRow_self, hpivot, hu k p hp, zero_div]
    · rw [hother ha hki, hu k a ha, hu i p hp, zero_div, mul_zero, sub_zero]

theorem residual_objective_pivot (h : t.Canonical n) (hp : t.rows[i]? = some p)
    (hj : cellAt p.cells j ≠ 0) {u : ℕ → ℚ} (hu : t.Holds u) :
    residual t.numColumns (t.pivot i j).objective u = residual t.numColumns t.objective u := by
  rw [objective_pivot hp, residual_clearColumn
    (by rw [length_scaleTo, h.rows.length_cells hp, h.length_objective])
    (cellAt_scaleTo_self hj), residual_scaleTo hj, holds_iff_getElem?.mp hu i p hp, zero_div,
    mul_zero, sub_zero]

end Pivot

end Tableau

end LinearProgramming
