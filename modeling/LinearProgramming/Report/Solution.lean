import LinearProgramming.Problem.Basic
import LinearProgramming.Report.Number
import LinearProgramming.Solution.Basic

/-!
# Solutions for a reader

The lines of text that show a solution: the tableaus first if they were kept, then the status, and
at an optimum the values and, on request, what the last tableau says about the problem.

A table has a line of headings and a line per row, each row behind its label. All columns have the
same width, two more than the longest text takes in bytes, and every text stands at the right end
of its column. Columns are filled up by characters. A character takes one byte or more, so no text
outgrows its column, and all lines have columns of one width in characters.
-/

namespace LinearProgramming

/-! ## Tables -/

/-- A text with as many blanks as it takes to be `width` characters long. -/
def blanksFor (width : Nat) (s : String) : String :=
  String.ofList (List.replicate (width - s.length) ' ')

def alignRight (width : Nat) (s : String) : String := blanksFor width s ++ s

def alignLeft (width : Nat) (s : String) : String := s ++ blanksFor width s

namespace Table

/-- The largest of the lengths, one if there are none. -/
def longest (lengths : List Nat) : Nat := if lengths.isEmpty then 1 else lengths.foldl max 0

def width (headings : List String) (rows : List (String × List String)) : Nat :=
  longest ((headings ++ rows.flatMap fun (label, cells) ↦ cells ++ [label]).map (·.utf8ByteSize))
    + 2

def line (width : Nat) (texts : List String) : String :=
  String.join (texts.map (alignRight width))

/-- The lines of a table whose cells are texts. -/
def linesOfTexts (headings : List String) (rows : List (String × List String)) : List String :=
  let w := width headings rows
  line w ("" :: headings) :: rows.map fun (label, cells) ↦ line w (label :: cells)

/-- The lines of a table of numbers. -/
def lines {α : Type} [Reportable α] (headings : List String) (rows : List (String × List α)) :
    List String :=
  linesOfTexts headings (rows.map fun (label, values) ↦ (label, values.map Reportable.text))

end Table

variable {α : Type} [Reportable α]

/-! ## Tableaus -/

def Phase.title : Phase → String
  | one => "Phase 1"
  | two => "Phase 2"

/-- The letter for the objective of a phase: phase one maximizes one of its own. -/
def Phase.objectiveLetter : Phase → String
  | one => "W"
  | two => "Z"

/-- The label of column `j`, which there is for every column of a tableau. -/
def columnName (names : List String) (j : Nat) : String := names[j]?.getD ""

namespace Step

/-- The line above a tableau, which is number `n` from zero. -/
def heading {α : Type} (names : List String) (n : Nat) (s : Step α) : String :=
  match s.pivot with
  | some (i, j) =>
    s!"Step {n + 1} ({s.phase.title}): pivot on row {i + 1}, {columnName names j} enters"
  | none => s!"Step {n + 1} ({s.phase.title}): initial tableau"

/-- The labels of the rows: the basic variable of each, and the letter of the objective. -/
def rowLabels {α : Type} (names : List String) (s : Step α) : List String :=
  s.basis.map (columnName names) ++ [s.phase.objectiveLetter]

/-- The lines that show a tableau, which is number `n` from zero. -/
def lines (labels : List String) (n : Nat) (s : Step α) : List String :=
  let names := labels.dropLast
  s.heading names n :: Table.lines labels ((s.rowLabels names).zip s.grid) ++ [""]

end Step

def Trace.lines (t : Trace α) : List String :=
  t.steps.zipIdx.flatMap fun (step, n) ↦ step.lines t.columnLabels n

/-! ## Results -/

/-- A name and a number in columns. -/
def nameLine (name : String) (x : α) : String :=
  s!"  {alignLeft 20 name} {alignRight 12 (Reportable.text x)}"

def Analysis.lines (a : Analysis α) : List String :=
  ["", "Analysis:", ""]
    ++ (if a.bindingConstraints.isEmpty then []
        else "Binding constraints:" :: a.bindingConstraints.map ("  - " ++ ·) ++ [""])
    ++ "Shadow prices:" :: a.shadowPrices.map (fun s ↦ nameLine s.constraint s.value)
    ++ ["", "Reduced costs (variables not in solution):"]
    ++ (a.reducedCosts.filter (!·.isBasic)).map fun r ↦ nameLine r.variableName r.cost

namespace Solution

def optimumLines (p : Problem α) (withAnalysis : Bool) (s : Solution α) : List String :=
  "Status: OPTIMAL"
    :: (s.objectiveValue.toList.map fun x ↦ s!"Objective: {Reportable.text x}")
    ++ [s!"Iterations: {s.iterations}", "", "Variables:"]
    ++ (s.values.getD []).mapIdx (fun j x ↦ nameLine (p.variableName j) x)
    ++ (if withAnalysis then (s.analysis.map (·.lines)).getD [] else [])

def statusLines (p : Problem α) (withAnalysis : Bool) (s : Solution α) : List String :=
  match s.status with
  | .optimal => s.optimumLines p withAnalysis
  | .infeasible =>
    ["Status: INFEASIBLE", "No solution exists that satisfies all constraints."]
  | .unbounded => ["Status: UNBOUNDED", "The problem has no finite optimal solution."]

def lines (p : Problem α) (withAnalysis : Bool) (s : Solution α) : List String :=
  (s.trace.map (·.lines)).getD [] ++ s.statusLines p withAnalysis

end Solution

end LinearProgramming
