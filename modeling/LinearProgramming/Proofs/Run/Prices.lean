import Mathlib.Algebra.Order.Field.Rat
import LinearProgramming.Proofs.Run.Represents

/-!
# Prices

An objective row of phase two is the row that was written, with the negated costs, plus a
combination of the rows of the standard form. Their multipliers are the prices of the rows, and a
row's price is what the objective row holds in the column that was basic in it to begin with: no
cost was written there, and no other row has a cell there.

A lower bound has its artificial variable in that column and its surplus besides, which started out
as the negated unit vector of the row. So its price can be read off either.
-/

open Finset

namespace LinearProgramming

namespace Tableau

variable {p : Problem ℚ} {t : Tableau ℚ}

/-- What the rows contribute to an objective row of phase two: all of it but the costs. -/
def contribution (form : StandardForm ℚ) (t : Tableau ℚ) : List ℚ :=
  subtractMultiple 1 ((form.costs .two).map (-·) ++ [0]) t.objective

section

variable (h : t.Represents (.ofWellFormed p))

include h

private theorem length_written_costs :
    (((StandardForm.ofWellFormed p).costs .two).map (-·) ++ [0] : List ℚ).length
      = t.objective.length := by
  rw [length_written (length_costs p .two), h.canonical.length_objective]

theorem Represents.length_contribution :
    (t.contribution (.ofWellFormed p)).length = (StandardForm.ofWellFormed p).numColumns + 1 := by
  rw [contribution, length_subtractMultiple (length_written_costs h), h.canonical.length_objective]

theorem Represents.cellAt_contribution {k : ℕ} (hk : k < (StandardForm.ofWellFormed p).numColumns) :
    cellAt (t.contribution (.ofWellFormed p)) k
      = cellAt t.objective k + cellAt (StandardForm.ofWellFormed p).objective k := by
  rw [contribution, cellAt_subtractMultiple (length_written_costs h),
    cellAt_written (length_costs p .two) hk, StandardForm.cellAt_costs_two, one_mul,
    sub_neg_eq_add]

theorem Represents.cellAt_contribution_of_le {k : ℕ} (hle : p.numVariables ≤ k)
    (hk : k < (StandardForm.ofWellFormed p).numColumns) :
    cellAt (t.contribution (.ofWellFormed p)) k = cellAt t.objective k := by
  have hcost : cellAt (StandardForm.ofWellFormed p).objective k = 0 :=
    cellAt_eq_zero (by rwa [StandardForm.length_objective])
  rw [h.cellAt_contribution hk, hcost, add_zero]

theorem Represents.cellAt_contribution_numColumns :
    cellAt (t.contribution (.ofWellFormed p)) (StandardForm.ofWellFormed p).numColumns
      = t.objectiveValue := by
  rw [contribution, cellAt_subtractMultiple (length_written_costs h),
    cellAt_append_singleton (by rw [List.length_map, length_costs]), mul_zero, sub_zero,
    objectiveValue, constantOf, h.numColumns_eq]

theorem Represents.residual_contribution (hphase : t.phase = .two) {u : ℕ → ℚ}
    (hu : (StandardForm.ofWellFormed p).Holds u) :
    residual (StandardForm.ofWellFormed p).numColumns (t.contribution (.ofWellFormed p)) u = 0 := by
  have hworth := h.worth u ((h.holds_iff u).mpr hu)
  rw [h.numColumns_eq, hphase] at hworth
  rw [contribution, residual_of_cellAt_eq_sub (cellAt_subtractMultiple (length_written_costs h) 1),
    hworth, residual_written (length_costs p .two), one_mul, StandardForm.worth, sub_self]

end

/-! ## Prices as multipliers -/

theorem rowPrice_place (t : Tableau ℚ) {row : NormalRow ℚ} {placed : StandardRow ℚ}
    {start extra auxiliary artificial : ℕ}
    (h : placed = row.place start extra auxiliary artificial) :
    t.rowPrice placed = match row.relation with
      | .le => cellAt t.objective auxiliary
      | .ge => -cellAt t.objective auxiliary
      | .eq => cellAt t.objective artificial := by
  rw [h, rowPrice, NormalRow.place]
  cases row.relation <;> rfl

section

variable (hp : p.WellFormed) (h : t.Represents (.ofWellFormed p)) (hphase : t.phase = .two)

include hp h hphase

private theorem cellAt_contribution_eq_sum (k : ℕ) :
    cellAt (t.contribution (.ofWellFormed p)) k
      = ((StandardForm.ofWellFormed p).rows.map fun row ↦ cellAt t.objective row.basic
          * cellAt (row.coefficients ++ [row.rhs]) k).sum := by
  have hsum := (canonicalRows_laidOut hp).cellAt_eq_sum h.length_contribution (fun u hu ↦
    h.residual_contribution hphase ((holds_laidOut_iff hp u).mp hu)) k
  rw [hsum, laidOut, List.map_map]
  refine congrArg List.sum (List.map_congr_left fun placed hplaced ↦ ?_)
  obtain ⟨i, hi⟩ := List.mem_iff_getElem?.mp hplaced
  obtain ⟨hle, hlt⟩ := basic_laidOut_lt (p := p) (i := i)
    (a := ⟨placed.basic, placed.coefficients ++ [placed.rhs]⟩)
    (by rw [laidOut, List.getElem?_map, hi]; rfl)
  rw [Function.comp_apply, h.cellAt_contribution_of_le hle hlt]

private theorem cellAt_objective_auxiliaryOf {i : ℕ} {row : NormalRow ℚ}
    (hi : p.normalRows[i]? = some row) (haux : row.relation.hasAuxiliary = true)
    {placed : StandardRow ℚ} (hrow : (StandardForm.ofWellFormed p).rows[i]? = some placed) :
    cellAt t.objective (p.auxiliaryOf i)
      = cellAt t.objective placed.basic * row.auxiliaryCoefficient := by
  have hlt : p.auxiliaryOf i < (StandardForm.ofWellFormed p).numColumns :=
    StandardForm.auxiliaryOf_lt_numColumns hi haux
  have hcell : ∀ {k : ℕ} {placed : StandardRow ℚ},
      (StandardForm.ofWellFormed p).rows[k]? = some placed →
      cellAt (placed.coefficients ++ [placed.rhs]) (p.auxiliaryOf i)
        = if k = i then row.auxiliaryCoefficient else 0 := by
    intro k placed hk
    obtain ⟨row', hi', -⟩ := StandardForm.exists_of_getElem?_rows hk
    rw [cellAt_append_left (by rwa [StandardForm.length_placed hp hi' hk]),
      StandardForm.cellAt_placed_auxiliaryOf hp hi haux hi' hk]
  rw [← h.cellAt_contribution_of_le Problem.le_auxiliaryOf hlt, cellAt_contribution_eq_sum hp h
    hphase, sum_map_eq_single hrow fun hb hne ↦ by rw [hcell hb, if_neg hne, mul_zero],
    hcell hrow, if_pos rfl]

/-- **A row's price** is the cell of the objective row where the row was basic to begin with. -/
theorem Represents.rowPrice_eq {i : ℕ} {placed : StandardRow ℚ}
    (hrow : (StandardForm.ofWellFormed p).rows[i]? = some placed) :
    t.rowPrice placed = cellAt t.objective placed.basic := by
  obtain ⟨row, hi, hplaced⟩ := StandardForm.exists_of_getElem?_rows hrow
  rw [rowPrice_place t hplaced]
  cases hrel : row.relation with
  | le => rw [hplaced, NormalRow.place, hrel]; rfl
  | ge =>
    -- The surplus started out as the negated unit vector of the row.
    have haux : row.relation.hasAuxiliary = true := by rw [hrel]; rfl
    have hone : row.auxiliaryCoefficient = -1 := by rw [NormalRow.auxiliaryCoefficient, hrel]; rfl
    rw [cellAt_objective_auxiliaryOf hp h hphase hi haux hrow, hone, mul_neg_one, neg_neg]
  | eq => rw [hplaced, NormalRow.place, hrel]; rfl

private theorem cellAt_contribution_eq_sum_rowPrice (k : ℕ) :
    cellAt (t.contribution (.ofWellFormed p)) k
      = ((StandardForm.ofWellFormed p).rows.map fun row ↦
          t.rowPrice row * cellAt (row.coefficients ++ [row.rhs]) k).sum := by
  rw [cellAt_contribution_eq_sum hp h hphase]
  refine congrArg List.sum (List.map_congr_left fun placed hplaced ↦ ?_)
  obtain ⟨i, hi⟩ := List.mem_iff_getElem?.mp hplaced
  rw [h.rowPrice_eq hp hphase hi]

/-- **The constants**: the objective is worth the right-hand sides at the prices of their rows. -/
theorem Represents.objectiveValue_eq_sum : t.objectiveValue
    = ((StandardForm.ofWellFormed p).rows.map fun row ↦ t.rowPrice row * row.rhs).sum := by
  rw [← h.cellAt_contribution_numColumns, cellAt_contribution_eq_sum_rowPrice hp h hphase]
  refine congrArg List.sum (List.map_congr_left fun placed hplaced ↦ ?_)
  rw [cellAt_append_singleton (StandardForm.length_of_mem_rows hp hplaced)]

/-- **The columns**: a variable's cell in the objective row is what it takes from the rows at their
prices, less its cost. -/
theorem Represents.cellAt_objective_eq_sum {j : ℕ} (hj : j < p.numVariables) :
    cellAt t.objective j
      = ((StandardForm.ofWellFormed p).rows.map fun row ↦
          t.rowPrice row * cellAt row.coefficients j).sum
        - cellAt (StandardForm.ofWellFormed p).objective j := by
  have hlt : j < (StandardForm.ofWellFormed p).numColumns :=
    hj.trans_le (StandardForm.numVariables_le_numColumns p)
  rw [eq_sub_iff_add_eq, ← h.cellAt_contribution hlt,
    cellAt_contribution_eq_sum_rowPrice hp h hphase]
  refine congrArg List.sum (List.map_congr_left fun placed hplaced ↦ ?_)
  rw [cellAt_append_left (by rwa [StandardForm.length_of_mem_rows hp hplaced])]

end

end Tableau

end LinearProgramming
