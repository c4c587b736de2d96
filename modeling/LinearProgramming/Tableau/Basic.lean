import LinearProgramming.StandardForm

/-!
# Tableaus

A tableau holds the constraint rows, each with the column that is basic in it, and the objective
row. Every row ends with its constant. The objective row states `z - c·x = 0`, so a negative cell
marks a column whose growth would raise `z`, and its constant is the value of `z` at the basic
solution.

The one operation on the rows is the pivot: divide a row so that a chosen cell becomes one, and
clear that column from all other rows. The cells of the pivot column are written as exact ones and
zeros, so that no rounding residue is left in them. A row that already has a zero there is not
touched at all.
-/

namespace LinearProgramming

/-- Which objective a tableau carries. -/
inductive Phase
  /-- Drive the artificial variables to zero. -/
  | one
  /-- Optimize the problem's own objective. -/
  | two
  deriving DecidableEq

structure TableauRow (α : Type) where
  /-- The column that is basic in the row. -/
  basic : Nat
  /-- One cell per column, and then the constant. -/
  cells : List α

/-- A simplex tableau. -/
structure Tableau (α : Type) where
  /-- The constraint rows. -/
  rows : List (TableauRow α)
  /-- The cells of the objective row, and then its constant. -/
  objective : List α
  phase : Phase

section Rows

variable {α : Type} [Scalar α]

/-- The cell of a row in column `j`; there is nothing, hence zero, past its end. -/
def cellAt (row : List α) (j : Nat) : α := row[j]?.getD 0

@[specialize] def subtractMultiple (factor : α) (source row : List α) : List α :=
  List.zipWith (fun x y ↦ x - factor * y) row source

/-- Clear column `j` of a row with the help of a row that has a one there. -/
@[specialize] def clearColumn (source : List α) (j : Nat) (row : List α) : List α :=
  if cellAt row j != 0 then (subtractMultiple (cellAt row j) source row).set j 0 else row

/-- Divide a row by its cell in column `j`. -/
@[specialize] def scaleTo (j : Nat) (row : List α) : List α :=
  (row.map (· / cellAt row j)).set j 1

/-- Re-express an objective row against a basis: clear each basic column in turn with the row it is
basic in, always by the cell that is there at that moment. -/
@[specialize] def priceOut (rows : List (TableauRow α)) (objective : List α) : List α :=
  rows.foldl (fun obj row ↦
    if cellAt obj row.basic != 0 then subtractMultiple (cellAt obj row.basic) row.cells obj
    else obj) objective

end Rows

namespace Tableau

/-! ## Shape and cells -/

section Shape

variable {α : Type}

def numRows (t : Tableau α) : Nat := t.rows.length

/-- How many variable columns there are, which is also the position of the constants. -/
def numColumns (t : Tableau α) : Nat := t.objective.length - 1

/-- The basic column of each constraint row. -/
def basis (t : Tableau α) : List Nat := t.rows.map (·.basic)

/-- The cells of all rows, the objective row last. -/
def grid (t : Tableau α) : List (List α) := t.rows.map (·.cells) ++ [t.objective]

/-- The cell in row `i` of the grid and column `j`, if there is one. -/
def cell? (t : Tableau α) (i j : Nat) : Option α := t.grid[i]? >>= fun row ↦ row[j]?

/-- The constant of row `i` of the grid, if there is one. -/
def constant? (t : Tableau α) (i : Nat) : Option α := t.cell? i t.numColumns

end Shape

variable {α : Type} [Scalar α]

def row (t : Tableau α) (i : Nat) : List α := (t.rows[i]?.map (·.cells)).getD []

def cell (t : Tableau α) (i j : Nat) : α := cellAt (t.row i) j

/-- The constant behind the cells of a row of this tableau. -/
def constantOf (t : Tableau α) (cells : List α) : α := cellAt cells t.numColumns

/-- The value of the maximized objective at the basic solution. -/
def objectiveValue (t : Tableau α) : α := t.constantOf t.objective

/-! ## Pivoting -/

/-- Make column `j` basic in row `i`, in place of the column that was. -/
@[specialize] def pivot (t : Tableau α) (i j : Nat) : Tableau α :=
  let source := scaleTo j (t.row i)
  { rows := t.rows.mapIdx fun k row ↦
      if k = i then { basic := j, cells := source }
      else { row with cells := clearColumn source j row.cells }
    objective := clearColumn source j t.objective
    phase := t.phase }

/-- Pivot on row `i` and column `j`, if that is a cell of a constraint row. -/
def pivot? (t : Tableau α) (i j : Nat) : Option (Tableau α) :=
  if i < t.numRows ∧ j ≤ t.numColumns then some (t.pivot i j) else none

/-! ## Objectives -/

/-- Replace the objective row by the one for the given costs, one per column. -/
def withCosts (t : Tableau α) (costs : List α) : Tableau α :=
  { t with objective := priceOut t.rows (costs.map (-·) ++ [0]) }

/-- The costs of phase one: each artificial variable costs one, all else is free. -/
def phaseOneCosts (form : StandardForm α) : List α :=
  (List.range form.numColumns).map fun j ↦ if form.isArtificial j then -1 else 0

/-- The costs of phase two: those of the problem on the structural columns, zero elsewhere. -/
def phaseTwoCosts (form : StandardForm α) : List α :=
  form.objective ++ List.replicate (form.numColumns - form.numStructural) 0

/-- Turn to the objective of phase one, the negated sum of the artificial variables. -/
def installPhaseOne (form : StandardForm α) (t : Tableau α) : Tableau α :=
  { t.withCosts (phaseOneCosts form) with phase := .one }

/-- Turn to the problem's own objective. -/
def installPhaseTwo (form : StandardForm α) (t : Tableau α) : Tableau α :=
  { t.withCosts (phaseTwoCosts form) with phase := .two }

/-- The tableau a solve starts from: phase one if there are artificial variables to drive out, and
phase two if there are none. -/
def initial (form : StandardForm α) : Tableau α :=
  let start : Tableau α :=
    { rows := form.rows.map fun row ↦
        { basic := row.basic, cells := row.coefficients ++ [row.rhs] }
      objective := List.replicate (form.numColumns + 1) 0
      phase := .two }
  if form.hasArtificial then start.installPhaseOne form else start.installPhaseTwo form

end Tableau

end LinearProgramming
