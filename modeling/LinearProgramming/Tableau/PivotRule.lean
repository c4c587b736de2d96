import LinearProgramming.Tableau.Basic

/-!
# Where to pivot

The choice of the entering column, of the leaving row, and of the column that takes the place of
an artificial variable. All three look at the tableau alone and decide up to a tolerance.

The entering column is the one with the most negative cost, the leftmost of equals. The leaving
row is found in one sweep from the top that carries the best row so far: a row takes its place if
its ratio is smaller by more than the tolerance, or is within the tolerance and the row's basic
column lies further left. The row carried then sets the ratio that the rows below compare with.
-/

namespace LinearProgramming

/-- A row that could leave the basis: its position, its basic column, and how far the entering
variable can grow before the row's own variable reaches zero. -/
structure Candidate (α : Type) where
  row : Nat
  basic : Nat
  ratio : α

variable {α : Type} [Scalar α]

/-- Whether a candidate takes the place of the best one above it. -/
def Candidate.beats (tolerance : α) (c best : Candidate α) : Bool :=
  c.ratio < best.ratio - tolerance
    || (Scalar.abs (c.ratio - best.ratio) ≤ tolerance && c.basic < best.basic)

namespace Tableau

/-- Whether column `j` may enter the basis: the artificial ones may not once phase one is over. -/
def mayEnter (form : StandardForm α) (t : Tableau α) (j : Nat) : Bool :=
  !(t.phase = .two && form.isArtificial j)

/-- The column with the most negative cost below `-tolerance`, the leftmost of equals. -/
@[specialize] def enteringColumn (form : StandardForm α) (tolerance : α) (t : Tableau α) :
    Option Nat :=
  ((t.objective.take t.numColumns).zipIdx.foldl (fun best (cost, j) ↦
    if t.mayEnter form j && cost < best.1 then (cost, some j) else best) (-tolerance, none)).2

/-- The candidate that constraint row `i` makes for entering column `j`, unless its cell there is
at most `tolerance`. -/
def candidate? (tolerance : α) (t : Tableau α) (j i : Nat) (row : TableauRow α) :
    Option (Candidate α) :=
  if cellAt row.cells j ≤ tolerance then none
  else some
    { row := i, basic := row.basic, ratio := t.constantOf row.cells / cellAt row.cells j }

/-- The better of the best candidate so far and the next one below it. -/
def pickCandidate (tolerance : α) : Option (Candidate α) → Option (Candidate α) →
    Option (Candidate α)
  | best, none => best
  | none, some c => some c
  | some best, some c => if c.beats tolerance best then some c else some best

/-- The row that leaves the basis when column `j` enters, if any limits its growth. -/
@[specialize] def leavingRow (tolerance : α) (t : Tableau α) (j : Nat) : Option Nat :=
  (t.rows.zipIdx.foldl (fun best (row, i) ↦
    pickCandidate tolerance best (t.candidate? tolerance j i row)) none).map (·.row)

/-- The first column that can replace an artificial variable in row `i`: not artificial itself, and
with a cell there that is not zero up to `tolerance`. -/
def replacementColumn (form : StandardForm α) (tolerance : α) (t : Tableau α) (i : Nat) :
    Option Nat :=
  (List.range t.numColumns).find? fun j ↦
    !form.isArtificial j && tolerance < Scalar.abs (t.cell i j)

end Tableau

end LinearProgramming
