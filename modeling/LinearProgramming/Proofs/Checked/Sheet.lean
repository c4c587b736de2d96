import LinearProgramming.Proofs.Checked.Access
import LinearProgramming.Proofs.Tableau.Shape
import LinearProgramming.Tableau.PivotRule

/-!
# Tableaus as tables

A tableau as a program stores it: a table of rows with the objective row at the bottom, and beside
it a list of the basic columns. Nothing ties the two together, or the lengths of the rows to one
another, and each cell is looked up by its position.

The operations on a sheet are those of the tableau, cell by cell and with every access checked. On
the sheet of a tableau that has a shape they all succeed, and do what is done to the tableau.
-/

namespace LinearProgramming

open Checked

variable {α : Type}

/-- A tableau as it is stored. -/
structure Sheet (α : Type) where
  /-- The constraint rows, and the objective row. -/
  grid : List (List α)
  basis : List ℕ
  phase : Phase

/-- What is stored of a tableau. -/
def Tableau.sheet (t : Tableau α) : Sheet α := ⟨t.grid, t.basis, t.phase⟩

namespace Sheet

/-! ## Looking up -/

/-- How many constraint rows there are, which is also the position of the objective row. -/
def numRows (s : Sheet α) : ℕ := s.basis.length

/-- How many columns there are, as the first row has it. -/
def numColumns (s : Sheet α) : Option ℕ := do (← s.grid[0]?).length.ppred

def value (s : Sheet α) (i j : ℕ) : Option α := do (← s.grid[i]?)[j]?

def constant (s : Sheet α) (i : ℕ) : Option α := do s.value i (← s.numColumns)

def objective (s : Sheet α) : Option (List α) := s.grid[s.numRows]?

def objectiveValue (s : Sheet α) : Option α := s.constant s.numRows

end Sheet

namespace Tableau

variable {t : Tableau α} {n i j : ℕ} {a : TableauRow α}

@[simp] theorem grid_sheet : t.sheet.grid = t.grid := rfl

@[simp] theorem basis_sheet : t.sheet.basis = t.basis := rfl

@[simp] theorem phase_sheet : t.sheet.phase = t.phase := rfl

@[simp] theorem numRows_sheet : t.sheet.numRows = t.numRows := List.length_map ..

theorem objective_sheet : t.sheet.objective = some t.objective := by
  rw [Sheet.objective, numRows_sheet]
  exact t.getElem?_grid_numRows

theorem numColumns_sheet (h : t.Shaped n) : t.sheet.numColumns = some n := by
  have hpos : 0 < t.grid.length := by
    rw [length_grid]
    exact Nat.succ_pos _
  rw [Sheet.numColumns, grid_sheet, List.getElem?_eq_getElem hpos]
  exact congrArg Nat.ppred (h.length_of_mem_grid _ (List.getElem_mem hpos))

variable [Scalar α]

theorem value_sheet (h : t.Shaped n) (ha : t.rows[i]? = some a) (hj : j ≤ n) :
    t.sheet.value i j = some (cellAt a.cells j) := by
  have hlt : j < a.cells.length := by
    rw [h.length_cells ha]
    exact Nat.lt_succ_of_le hj
  rw [Sheet.value, grid_sheet, getElem?_grid ha]
  exact getElem?_eq_cellAt hlt

theorem constant_sheet (h : t.Shaped n) (ha : t.rows[i]? = some a) :
    t.sheet.constant i = some (t.constantOf a.cells) := by
  rw [Sheet.constant, numColumns_sheet h, constantOf, h.numColumns_eq]
  exact value_sheet h ha (Nat.le_refl n)

theorem objectiveValue_sheet (h : t.Shaped n) :
    t.sheet.objectiveValue = some t.objectiveValue := by
  rw [Sheet.objectiveValue, Sheet.constant, numColumns_sheet h, numRows_sheet, objectiveValue,
    constantOf, h.numColumns_eq]
  simp only [Option.bind_eq_bind, Option.bind_some, Sheet.value, grid_sheet, getElem?_grid_numRows]
  exact getElem?_eq_cellAt (by rw [h.length_objective]; exact Nat.lt_succ_self n)

end Tableau

/-! ## Row operations -/

namespace Checked

variable [Scalar α] {row source : List α} {j : ℕ}

/-- Subtract a multiple of one row from the first `width` cells of another. -/
def subtract (width : ℕ) (factor : α) (source row : List α) : Option (List α) :=
  overwrite width (fun j x ↦ do return x - factor * (← source[j]?)) row

theorem subtract_eq (h : source.length = row.length) (factor : α) :
    subtract row.length factor source row = some (subtractMultiple factor source row) := by
  rw [subtract, overwrite_eq _ (g := fun j x ↦ x - factor * cellAt source j) fun {i x} hi ↦ ?_]
  · refine congrArg some (eq_of_cellAt (List.length_mapIdx ..) (length_subtractMultiple h factor)
      fun i hi ↦ ?_)
    rw [cellAt_subtractMultiple_of_lt h factor hi, cellAt_eq_getElem
      (by rwa [List.length_mapIdx]), List.getElem_mapIdx, cellAt_eq_getElem hi]
  · have hlt : i < source.length := h ▸ (List.getElem?_eq_some_iff.mp hi).1
    rw [getElem?_eq_cellAt hlt]
    rfl

def scale (j : ℕ) (row : List α) : Option (List α) := do
  let pivot ← row[j]?
  setAt (← overwrite row.length (fun _ x ↦ some (x / pivot)) row) j 1

theorem scale_eq (hj : j < row.length) : scale j row = some (scaleTo j row) := by
  have hdivide : overwrite row.length (fun _ x ↦ some (x / cellAt row j)) row
      = some (row.map (· / cellAt row j)) := by
    rw [overwrite_eq _ (g := fun _ x ↦ x / cellAt row j) fun _ ↦ rfl]
    exact congrArg some (List.ext_getElem (by simp) (by simp))
  rw [scale, getElem?_eq_cellAt hj]
  simp only [Option.bind_eq_bind, Option.bind_some, hdivide]
  exact setAt_of_lt (by rwa [List.length_map]) 1

/-- Clear column `j` in the first `width` cells of a row. -/
def clear (width : ℕ) (source : List α) (j : ℕ) (row : List α) : Option (List α) := do
  let factor ← row[j]?
  if factor != 0 then setAt (← subtract width factor source row) j 0 else some row

theorem clear_eq (h : source.length = row.length) (hj : j < row.length) :
    clear row.length source j row = some (clearColumn source j row) := by
  rw [clear, getElem?_eq_cellAt hj, clearColumn]
  simp only [Option.bind_eq_bind, Option.bind_some, subtract_eq h]
  split_ifs
  · exact setAt_of_lt (by rwa [length_subtractMultiple h]) 0
  · rfl

end Checked

namespace Sheet

variable [Scalar α]

/-! ## Pivoting -/

def pivot (s : Sheet α) (i j : ℕ) : Option (Sheet α) := do
  let row ← s.grid[i]?
  let source ← scale j row
  let grid ← setAt s.grid i source
  let grid ← overwrite grid.length
    (fun k cells ↦ if k = i then some cells else clear row.length source j cells) grid
  return ⟨grid, ← setAt s.basis i j, s.phase⟩

/-! ## Objectives -/

/-- Clear the column that is basic in row `i` from an objective row. -/
def clearBasic (s : Sheet α) (width : ℕ) (obj : List α) (i : ℕ) : Option (List α) := do
  let factor ← obj[← s.basis[i]?]?
  if factor != 0 then subtract width factor (← s.grid[i]?) obj else some obj

/-- Replace the objective row by the one for the given costs: negate them into the cells that it
has, write a zero for the constant, and clear the basic columns. -/
def withCosts (s : Sheet α) (costs : List α) : Option (Sheet α) := do
  let n ← s.numColumns
  let old ← s.objective
  let obj ← setAt ((costs.map (-·)).take old.length ++ old.drop costs.length) n 0
  let obj ← (List.range s.numRows).foldlM (s.clearBasic (n + 1)) obj
  return { s with grid := ← setAt s.grid s.numRows obj }

def installPhaseOne (form : StandardForm α) (s : Sheet α) : Option (Sheet α) := do
  return { ← s.withCosts (Tableau.phaseOneCosts form) with phase := .one }

def installPhaseTwo (form : StandardForm α) (s : Sheet α) : Option (Sheet α) := do
  let costs ← copyFront form.numStructural form.objective (List.replicate form.numColumns 0)
  return { ← s.withCosts costs with phase := .two }

/-- The rows of a standard form, with an objective row of zeros. -/
def laidOut (form : StandardForm α) : Sheet α where
  grid := form.rows.map (fun row ↦ row.coefficients ++ [row.rhs])
    ++ [List.replicate (form.numColumns + 1) 0]
  basis := form.rows.map (·.basic)
  phase := .two

def initial (form : StandardForm α) : Option (Sheet α) :=
  if form.hasArtificial then (laidOut form).installPhaseOne form
  else (laidOut form).installPhaseTwo form

end Sheet

namespace Tableau

variable [Scalar α] {t : Tableau α} {n i j : ℕ} {a : TableauRow α} {costs : List α}

private theorem grid_pivot (ha : t.rows[i]? = some a) :
    (t.grid.set i (scaleTo j a.cells)).mapIdx
        (fun k cells ↦ if k = i then cells else clearColumn (scaleTo j a.cells) j cells)
      = (t.pivot i j).grid := by
  have hi : i < t.rows.length := (List.getElem?_eq_some_iff.mp ha).1
  have hrow : t.row i = a.cells := by
    rw [row, ha]
    rfl
  have hobjective : ¬0 + ((t.rows.map (·.cells)).set i (scaleTo j a.cells)).length = i := by
    rw [Nat.zero_add, List.length_set, List.length_map]
    exact hi.ne'
  rw [grid, List.set_append_left _ _ (by rwa [List.length_map]), List.mapIdx_append,
    List.mapIdx_cons, if_neg hobjective, grid, objective_pivot_eq ha]
  refine congrArg (· ++ _) (List.ext_getElem ?_ fun k hk hk' ↦ ?_)
  · rw [List.length_mapIdx, List.length_set, List.length_map, List.length_map, pivot,
      List.length_mapIdx]
  · simp only [pivot, hrow, List.getElem_mapIdx, List.getElem_set, List.getElem_map]
    by_cases hki : k = i
    · rw [if_pos hki, if_pos hki.symm, if_pos hki]
    · rw [if_neg hki, if_neg (Ne.symm hki), if_neg hki]

private theorem basis_pivot : t.basis.set i j = (t.pivot i j).basis := by
  rw [basis, basis, pivot]
  refine List.ext_getElem (by simp) fun k hk hk' ↦ ?_
  simp only [List.getElem_set, List.getElem_map, List.getElem_mapIdx]
  by_cases hki : k = i
  · rw [if_pos hki.symm, if_pos hki]
  · rw [if_neg (Ne.symm hki), if_neg hki]

/-- **A pivot on a cell of the tableau** finds all that it needs. -/
theorem pivot_sheet (h : t.Shaped n) (ha : t.rows[i]? = some a) (hj : j < n) :
    t.sheet.pivot i j = some (t.pivot i j).sheet := by
  have hi : i < t.numRows := (List.getElem?_eq_some_iff.mp ha).1
  have hwidth : a.cells.length = n + 1 := h.length_cells ha
  have hscale : scale j a.cells = some (scaleTo j a.cells) := scale_eq (by omega)
  have hgrid : i < t.grid.length := by
    rw [length_grid]
    exact hi.trans (Nat.lt_succ_self _)
  have hbasis : i < t.basis.length := by rwa [basis, List.length_map]
  -- The rows other than the pivot row are still those of the tableau, and as long as that one.
  have hclear := overwrite_eq (t.grid.set i (scaleTo j a.cells))
    (f := fun k cells ↦ if k = i then some cells
      else clear a.cells.length (scaleTo j a.cells) j cells)
    (g := fun k cells ↦ if k = i then cells else clearColumn (scaleTo j a.cells) j cells)
    fun {k cells} hk ↦ by
      by_cases hki : k = i
      · rw [if_pos hki, if_pos hki]
      · rw [List.getElem?_set_ne (Ne.symm hki)] at hk
        have hlen : a.cells.length = cells.length := by
          rw [hwidth, h.length_of_mem_grid cells (List.mem_of_getElem? hk)]
        rw [if_neg hki, if_neg hki, hlen]
        exact clear_eq (by rw [length_scaleTo, hlen]) (by omega)
  rw [Sheet.pivot, grid_sheet, basis_sheet, getElem?_grid ha]
  simp only [Option.bind_eq_bind, Option.bind_some, hscale, setAt_of_lt hgrid, hclear,
    setAt_of_lt hbasis, grid_pivot ha, basis_pivot]
  rfl

private theorem clearBasic_sheet (h : t.Shaped n) (ha : t.rows[i]? = some a) {obj : List α}
    (hobj : obj.length = n + 1) : t.sheet.clearBasic (n + 1) obj i = some (clearBasic obj a) := by
  have hlt := h.basic_lt ha
  have hlen : a.cells.length = obj.length := (h.length_cells ha).trans hobj.symm
  have hfactor : obj[a.basic]? = some (cellAt obj a.basic) := getElem?_eq_cellAt (by omega)
  rw [Sheet.clearBasic, basis_sheet, grid_sheet, getElem?_basis ha, getElem?_grid ha, clearBasic,
    ← hobj]
  simp only [Option.bind_eq_bind, Option.bind_some, hfactor, subtract_eq hlen]
  split_ifs <;> rfl

/-- **An objective with a cost for each column** can be installed. -/
theorem withCosts_sheet (h : t.Shaped n) (hcosts : costs.length = n) :
    t.sheet.withCosts costs = some (t.withCosts costs).sheet := by
  have hold : (costs.map (-·)).take t.objective.length ++ t.objective.drop costs.length
      = costs.map (-·) ++ [t.objectiveValue] := by
    rw [List.take_of_length_le (by rw [List.length_map, h.length_objective]; omega), hcosts,
      objectiveValue, constantOf, h.numColumns_eq, cellAt_eq_getElem
      (by rw [h.length_objective]; omega), List.drop_eq_getElem_cons
      (by rw [h.length_objective]; omega), List.drop_eq_nil_of_le
      (by rw [h.length_objective])]
  have hwrite : setAt (costs.map (-·) ++ [t.objectiveValue]) n 0
      = some (costs.map (-·) ++ [0]) := by
    rw [setAt_of_lt (by simp [hcosts]), List.set_append_right _ _ (by simp [hcosts])]
    simp [hcosts]
  -- What is carried along is the objective row, still as long as the others.
  obtain ⟨obj, hloop, rfl, -⟩ := foldlM_range t.rows (t.sheet.clearBasic (n + 1))
    (f := clearBasic)
    (R := fun obj obj' ↦ obj = obj' ∧ obj.length = n + 1)
    (fun {i a obj _} ha hobj ↦ by
      obtain ⟨rfl, hobj⟩ := hobj
      exact ⟨_, clearBasic_sheet h ha hobj, rfl,
        (length_clearBasic ((h.length_cells ha).trans hobj.symm)).trans hobj⟩)
    (b := costs.map (-·) ++ [0]) ⟨rfl, by simp [hcosts]⟩
  have hgrid : t.grid.set t.numRows (t.rows.foldl clearBasic (costs.map (-·) ++ [0]))
      = (t.withCosts costs).grid := by
    rw [grid, List.set_append_right _ _ (by rw [List.length_map]; rfl), List.length_map, numRows,
      Nat.sub_self]
    rfl
  have hlt : t.numRows < t.grid.length := by
    rw [length_grid]
    exact Nat.lt_succ_self _
  rw [Sheet.withCosts, numColumns_sheet h, objective_sheet]
  simp only [Option.bind_eq_bind, Option.bind_some, hold, hwrite, numRows_sheet, grid_sheet]
  rw [numRows, hloop, ← numRows]
  simp only [Option.bind_some, setAt_of_lt hlt, hgrid]
  rfl

variable {p : Problem α}

theorem installPhaseOne_sheet {form : StandardForm α} (h : t.Shaped form.numColumns) :
    t.sheet.installPhaseOne form = some (t.installPhaseOne form).sheet := by
  rw [Sheet.installPhaseOne, withCosts_sheet h (length_phaseOneCosts form)]
  rfl

theorem installPhaseTwo_sheet_of {form : StandardForm α}
    (hobjective : form.objective.length = form.numStructural)
    (hle : form.numStructural ≤ form.numColumns) (h : t.Shaped form.numColumns) :
    t.sheet.installPhaseTwo form = some (t.installPhaseTwo form).sheet := by
  have hcopy : copyFront form.numStructural form.objective (List.replicate form.numColumns 0)
      = some (phaseTwoCosts form) := by
    rw [copyFront_of_length hobjective (by rwa [List.length_replicate]), List.drop_replicate,
      phaseTwoCosts]
  have hcosts := length_phaseTwoCosts_of hobjective hle
  rw [Sheet.installPhaseTwo, hcopy]
  simp only [Option.bind_eq_bind, Option.bind_some, withCosts_sheet h hcosts]
  rfl

theorem installPhaseTwo_sheet (h : t.Shaped (StandardForm.ofWellFormed p).numColumns) :
    t.sheet.installPhaseTwo (.ofWellFormed p)
      = some (t.installPhaseTwo (.ofWellFormed p)).sheet := by
  refine installPhaseTwo_sheet_of ?_ ?_ h
  · rw [StandardForm.length_objective, StandardForm.numStructural_ofWellFormed]
  · rw [StandardForm.numStructural_ofWellFormed]
    exact StandardForm.numVariables_le_numColumns p

theorem sheet_laidOut (form : StandardForm α) : (laidOut form).sheet = Sheet.laidOut form := by
  rw [sheet, Sheet.laidOut, grid, basis, laidOut, List.map_map, List.map_map]
  rfl

/-- **The first tableau** can be set up. -/
theorem initial_sheet (hp : p.WellFormed) :
    Sheet.initial (.ofWellFormed p) = some (initial (.ofWellFormed p)).sheet := by
  have hshaped := shaped_laidOut hp
  rw [initial_eq_laidOut, Sheet.initial, ← sheet_laidOut]
  split_ifs
  · exact installPhaseOne_sheet hshaped
  · exact installPhaseTwo_sheet hshaped

end Tableau

end LinearProgramming
