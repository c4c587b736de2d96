import LinearProgramming.Proofs.Tableau.Choice
import LinearProgramming.Proofs.Tableau.Pivot

/-!
# Pivots that are taken back

A pivot brings one column into the basis and puts another one out. If the column it puts out was the
unit vector of its row, a second pivot brings that column back and leaves the tableau as it was
before the first.

For the pivot row this is dividing twice. For any other row the second pivot has to give back what
the first one took. The first took its cell in the entering column times the scaled pivot row, and
what it left in the leaving column, where there had been a zero, is that same multiple with its
sign turned.

## What is not asked for

The other basic columns may be anything. Neither that they are unit vectors nor that they are
columns of the tableau at all has a part in this, so a tableau is taken here as a grid with rows of
one length and no more.
-/

namespace LinearProgramming

/-! ## Rows -/

section Rows

variable {source row : List ℚ} {j b : ℕ}

theorem scaleTo_scaleTo (hj : cellAt row j ≠ 0) (hb : cellAt row b = 1) :
    scaleTo b (scaleTo j row) = row := by
  have hcell : cellAt (scaleTo j row) b = 1 / cellAt row j := by rw [cellAt_scaleTo hj, hb]
  have hne : cellAt (scaleTo j row) b ≠ 0 := by
    rw [hcell]
    exact one_div_ne_zero hj
  refine eq_of_cellAt (by rw [length_scaleTo, length_scaleTo]) rfl fun k _ ↦ ?_
  rw [cellAt_scaleTo hne, hcell, cellAt_scaleTo hj, div_div_div_cancel_right₀ hj, div_one]

theorem clearColumn_clearColumn (hlen : source.length = row.length) (hj : cellAt source j ≠ 0)
    (hb : cellAt source b = 1) (hzero : cellAt row b = 0) :
    clearColumn source b (clearColumn (scaleTo j source) j row) = row := by
  have hscaled : (scaleTo j source).length = row.length := by rw [length_scaleTo, hlen]
  have hone : cellAt (scaleTo j source) j = 1 := by rw [cellAt_scaleTo hj, div_self hj]
  have hcleared := cellAt_clearColumn hscaled hone
  have hlen' : source.length = (clearColumn (scaleTo j source) j row).length := by
    rw [length_clearColumn hscaled, hlen]
  refine eq_of_cellAt (by rw [length_clearColumn hlen', length_clearColumn hscaled]) rfl
    fun k _ ↦ ?_
  rw [cellAt_clearColumn hlen' hb, hcleared, hcleared, cellAt_scaleTo hj, cellAt_scaleTo hj, hb,
    hzero]
  ring

end Rows

namespace Tableau

/-! ## Tableaus as grids -/

/-- Every row of the grid has a cell for each column, and a constant. -/
def Rectangular {α : Type} (t : Tableau α) : Prop :=
  ∀ cells ∈ t.grid, cells.length = t.numColumns + 1

/-- Column `c` is the unit vector of row `i`: it has a one there, and zeros in the other rows and in
the objective row. -/
def IsUnitVector (t : Tableau ℚ) (i c : ℕ) : Prop :=
  ∀ k ≤ t.numRows, t.cell? k c = some (if k = i then 1 else 0)

section

variable {t : Tableau ℚ} {i j k l : ℕ} {a b : TableauRow ℚ}

theorem Rectangular.length_cells (h : t.Rectangular) (ha : t.rows[i]? = some a) :
    a.cells.length = t.numColumns + 1 := h _ (List.mem_of_getElem? (getElem?_grid ha))

theorem Rectangular.length_objective (h : t.Rectangular) :
    t.objective.length = t.numColumns + 1 := h _ (List.mem_of_getElem? t.getElem?_grid_numRows)

theorem Rectangular.cell?_row (h : t.Rectangular) (ha : t.rows[i]? = some a)
    (hl : l ≤ t.numColumns) : t.cell? i l = some (cellAt a.cells l) := by
  rw [cell?, getElem?_grid ha]
  exact getElem?_eq_cellAt (by rw [h.length_cells ha]; exact Nat.lt_succ_of_le hl)

theorem Rectangular.cell?_objective (h : t.Rectangular) (hl : l ≤ t.numColumns) :
    t.cell? t.numRows l = some (cellAt t.objective l) := by
  rw [cell?, getElem?_grid_numRows]
  exact getElem?_eq_cellAt (by rw [h.length_objective]; exact Nat.lt_succ_of_le hl)

theorem Rectangular.le_numColumns (h : t.Rectangular) (ha : t.rows[i]? = some a) {x : ℚ}
    (hx : t.cell? i l = some x) : l ≤ t.numColumns := by
  rw [cell?, getElem?_grid ha] at hx
  have hlt : l < a.cells.length := (List.getElem?_eq_some_iff.mp hx).1
  rw [h.length_cells ha] at hlt
  exact Nat.le_of_lt_succ hlt

/-! ## One pivot -/

theorem numRows_pivot (t : Tableau ℚ) (i j : ℕ) : (t.pivot i j).numRows = t.numRows :=
  List.length_mapIdx ..

theorem Rectangular.numColumns_pivot (h : t.Rectangular) (ha : t.rows[i]? = some a) :
    (t.pivot i j).numColumns = t.numColumns := by
  rw [numColumns, numColumns, length_objective_pivot ha (by rw [h.length_cells ha,
    h.length_objective])]

theorem Rectangular.pivot (h : t.Rectangular) (ha : t.rows[i]? = some a) :
    (t.pivot i j).Rectangular := by
  rw [Rectangular, h.numColumns_pivot ha, forall_mem_grid_iff]
  constructor
  · intro b hb
    obtain ⟨k, hk⟩ := List.mem_iff_getElem?.mp hb
    obtain ⟨c, hc, rfl⟩ := exists_of_getElem?_rows_pivot ha hk
    rcases eq_or_ne k i with rfl | hki
    · rw [pivotedRow_self, length_scaleTo, h.length_cells ha]
    · rw [pivotedRow_of_ne hki, length_clearColumn (by rw [length_scaleTo, h.length_cells ha,
        h.length_cells hc]), h.length_cells hc]
  · rw [length_objective_pivot ha (by rw [h.length_cells ha, h.length_objective]),
      h.length_objective]

/-- **What a pivot leaves of a cell** of another row: all of the new cells are made of cells of the
old grid. -/
theorem Rectangular.cell?_pivot (h : t.Rectangular) (ha : t.rows[i]? = some a)
    (hne : cellAt a.cells j ≠ 0) (hj : j ≤ t.numColumns) (hk : k ≤ t.numRows) (hki : k ≠ i)
    (hl : l ≤ t.numColumns) :
    ∃ y z, t.cell? k l = some y ∧ t.cell? k j = some z
      ∧ (t.pivot i j).cell? k l = some (y - z * cellAt a.cells l / cellAt a.cells j) := by
  have hl' : l ≤ (t.pivot i j).numColumns := by rwa [h.numColumns_pivot ha]
  rcases hk.lt_or_eq with hk | rfl
  · have hb : t.rows[k]? = some t.rows[k] := List.getElem?_eq_getElem hk
    have hb' : (t.pivot i j).rows[k]? = some (pivotedRow a i j k t.rows[k]) := by
      rw [getElem?_rows_pivot ha, hb, Option.map_some]
    refine ⟨_, _, h.cell?_row hb hl, h.cell?_row hb hj, ?_⟩
    rw [(h.pivot ha).cell?_row hb' hl', cellAt_pivotedRow_of_ne hki (by rw [h.length_cells ha,
      h.length_cells hb]) hne, mul_div_assoc]
  · refine ⟨_, _, h.cell?_objective hl, h.cell?_objective hj, ?_⟩
    rw [← numRows_pivot t i j, (h.pivot ha).cell?_objective hl', cellAt_objective_pivot ha (by rw
      [h.length_cells ha, h.length_objective]) hne, mul_div_assoc]

/-! ## Two pivots -/

/-- **A pivot is taken back** by pivoting in the same row on the column that was basic in it. -/
theorem Rectangular.pivot_pivot (h : t.Rectangular) (ha : t.rows[i]? = some a)
    (hne : cellAt a.cells j ≠ 0) (hone : cellAt a.cells a.basic = 1)
    (hzero : ∀ {k : ℕ} {b : TableauRow ℚ}, t.rows[k]? = some b → k ≠ i →
      cellAt b.cells a.basic = 0)
    (hobjective : cellAt t.objective a.basic = 0) : (t.pivot i j).pivot i a.basic = t := by
  have ha' : (t.pivot i j).rows[i]? = some { basic := j, cells := scaleTo j a.cells } := by
    rw [getElem?_rows_pivot ha, ha, Option.map_some, pivotedRow_self]
  have hback : scaleTo a.basic (scaleTo j a.cells) = a.cells := scaleTo_scaleTo hne hone
  have hrows : ((t.pivot i j).pivot i a.basic).rows = t.rows := by
    refine List.ext_getElem? fun k ↦ ?_
    rw [getElem?_rows_pivot ha', getElem?_rows_pivot ha]
    rcases hb : t.rows[k]? with _ | b
    · rfl
    · rcases eq_or_ne k i with rfl | hki
      · obtain rfl : a = b := Option.some_inj.mp (ha.symm.trans hb)
        rw [Option.map_some, Option.map_some, pivotedRow_self, hback]
      · have hlen : a.cells.length = b.cells.length := by rw [h.length_cells ha, h.length_cells hb]
        rw [Option.map_some, Option.map_some, pivotedRow_of_ne hki, pivotedRow_of_ne hki, hback,
          clearColumn_clearColumn hlen hne hone (hzero hb hki)]
  have hlast : ((t.pivot i j).pivot i a.basic).objective = t.objective := by
    rw [objective_pivot ha', objective_pivot ha, hback, clearColumn_clearColumn
      (by rw [h.length_cells ha, h.length_objective]) hne hone hobjective]
  rcases t with ⟨rows, objective, phase⟩
  exact congrArg₂ (Tableau.mk · · phase) hrows hlast

end

/-- **The pivot formula, and the way back.** A pivot on a cell that is not zero can be made. It
takes from every cell outside of its row the product of the cells that stand with it in the pivot
column and in the pivot row, over the pivot element, all of them read in the old grid. If the column
that was basic in the row is its unit vector, a pivot on that column can be made next, and it
restores the tableau. -/
theorem pivot?_reversal {t : Tableau ℚ} (h : t.Rectangular) {i j : ℕ} (hi : i < t.numRows)
    (hj : j < t.numColumns) {x : ℚ} (hx : t.cell? i j = some x) (hne : x ≠ 0) :
    ∃ t', t.pivot? i j = some t'
      ∧ (∀ k ≤ t.numRows, k ≠ i → ∀ l ≤ t.numColumns, ∃ y z w, t.cell? k l = some y
        ∧ t.cell? k j = some z ∧ t.cell? i l = some w ∧ t'.cell? k l = some (y - z * w / x))
      ∧ ∀ b, t.basis[i]? = some b → t.IsUnitVector i b → t'.pivot? i b = some t := by
  have ha : t.rows[i]? = some t.rows[i] := List.getElem?_eq_getElem hi
  obtain rfl : cellAt t.rows[i].cells j = x := by
    rwa [h.cell?_row ha hj.le, Option.some_inj] at hx
  refine ⟨_, pivot?_eq_some hi hj, ?_, ?_⟩
  · intro k hk hki l hl
    obtain ⟨y, z, hy, hz, hcell⟩ := h.cell?_pivot ha hne hj.le hk hki hl
    exact ⟨y, z, _, hy, hz, h.cell?_row ha hl, hcell⟩
  · intro b hb hunit
    obtain rfl : t.rows[i].basic = b := Option.some_inj.mp ((getElem?_basis ha).symm.trans hb)
    have hle : t.rows[i].basic ≤ t.numColumns := h.le_numColumns ha (hunit i hi.le)
    have hcell : ∀ {k : ℕ} {c : TableauRow ℚ}, t.rows[k]? = some c →
        cellAt c.cells t.rows[i].basic = if k = i then 1 else 0 := by
      intro k c hc
      have hk : k ≤ t.numRows := (List.getElem?_eq_some_iff.mp hc).1.le
      exact Option.some_inj.mp ((h.cell?_row hc hle).symm.trans (hunit k hk))
    have hobjective : cellAt t.objective t.rows[i].basic = 0 := by
      have hlast := (h.cell?_objective hle).symm.trans (hunit t.numRows le_rfl)
      rwa [if_neg hi.ne', Option.some_inj] at hlast
    rw [pivot?, if_pos ⟨by rwa [numRows_pivot], by rwa [h.numColumns_pivot ha]⟩,
      h.pivot_pivot ha hne (by rw [hcell ha, if_pos rfl])
        (fun hc hki ↦ by rw [hcell hc, if_neg hki]) hobjective]

/-- A tableau in the middle of phase one, with an objective that has a constant already. -/
def midway : Tableau ℚ where
  rows := [⟨2, [2, 1, 1, 0, 0, 4]⟩, ⟨3, [-1, -3, 0, 1, 0, 6]⟩, ⟨4, [0, 5, 0, 0, 1, 2]⟩]
  objective := [-3, -5, 0, 0, 0, 7]
  phase := .one

/-- A negative cell of the middle row, and the way back to the fourth column. -/
theorem pivot?_reversal_midway : midway.Rectangular ∧ 1 < midway.numRows ∧ 1 < midway.numColumns
    ∧ midway.cell? 1 1 = some (-3) ∧ (-3 : ℚ) ≠ 0 ∧ midway.basis[1]? = some 3
    ∧ midway.IsUnitVector 1 3
    ∧ ∃ t', midway.pivot? 1 1 = some t' ∧ t'.cell? 3 5 = some (7 - -5 * 6 / -3)
      ∧ t'.pivot? 1 3 = some midway := by
  have hgrid : midway.Rectangular := by
    rw [Rectangular]
    decide
  have hcell : midway.cell? 1 1 = some (-3) := by decide +kernel
  have hbasis : midway.basis[1]? = some 3 := rfl
  have hunit : midway.IsUnitVector 1 3 := by
    rw [IsUnitVector]
    decide +kernel
  obtain ⟨t', hpivot, hformula, hback⟩ :=
    pivot?_reversal hgrid (i := 1) (j := 1) (by decide) (by decide) hcell (by norm_num)
  obtain ⟨y, z, w, hy, hz, hw, hconstant⟩ := hformula 3 (by decide) (by decide) 5 (by decide)
  obtain rfl : (7 : ℚ) = y := Option.some_inj.mp hy
  obtain rfl : (-5 : ℚ) = z := Option.some_inj.mp hz
  obtain rfl : (6 : ℚ) = w := Option.some_inj.mp hw
  exact ⟨hgrid, by decide, by decide, hcell, by norm_num, hbasis, hunit, t', hpivot, hconstant,
    hback 3 hbasis hunit⟩

end Tableau

end LinearProgramming
