import LinearProgramming.Problem.Feasible

/-!
# Standard form

The equality form the simplex method works on. Every constraint is turned so that its right-hand
side is not negative, then gains the columns its relation calls for: a slack to fill up a `≤`, a
surplus to take from a `≥`, and an artificial variable wherever no slack can start out in the
basis. The objective is always maximized; a minimization has its costs negated.

Columns come in three blocks, each in constraint order: the structural variables, the slacks and
surpluses, the artificials. Rows are placed from top to bottom, each taking the next free column
of the blocks it needs, so a row's positions are known as soon as the rows above it are.
-/

namespace LinearProgramming

/-- What a column of the standard form stands for. -/
inductive Column
  /-- Variable `j` of the problem. -/
  | structural (j : Nat)
  /-- What constraint `i`, a `≤`, leaves unused. -/
  | slack (i : Nat)
  /-- What constraint `i`, a `≥`, has in excess. -/
  | surplus (i : Nat)
  /-- The stand-in that lets constraint `i` hold before a solution of it is known. -/
  | artificial (i : Nat)
  deriving DecidableEq

namespace Relation

def hasAuxiliary (r : Relation) : Bool := r ≠ eq

def hasArtificial (r : Relation) : Bool := r ≠ le

end Relation

/-- A constraint turned so that its right-hand side is not negative. -/
structure NormalRow (α : Type) where
  coefficients : List α
  relation : Relation
  rhs : α
  /-- Whether it had to be negated. -/
  negated : Bool

/-- A row of the standard form. -/
structure StandardRow (α : Type) where
  /-- One coefficient per column. -/
  coefficients : List α
  rhs : α
  /-- The relation once the right-hand side is not negative. -/
  relation : Relation
  /-- Whether the constraint had to be negated. -/
  negated : Bool
  /-- The column of the row's slack or surplus. -/
  auxiliary : Option Nat
  /-- The column of the row's artificial variable. -/
  artificial : Option Nat
  /-- The column that is basic in the row to begin with. -/
  basic : Nat

/-- The equality form of a problem. -/
structure StandardForm (α : Type) where
  sense : Sense
  /-- The costs to maximize, one per structural column. -/
  objective : List α
  rows : List (StandardRow α)
  columns : List Column
  numStructural : Nat
  numAuxiliary : Nat
  numArtificial : Nat

section

variable {α : Type} [Scalar α]

/-- Turn a constraint so that its right-hand side is not negative. -/
def Constraint.normalize (c : Constraint α) : NormalRow α :=
  if c.rhs < 0 then
    { coefficients := c.coefficients.map (-·), relation := c.relation.flipped, rhs := -c.rhs,
      negated := true }
  else
    { coefficients := c.coefficients, relation := c.relation, rhs := c.rhs, negated := false }

namespace NormalRow

def auxiliaryColumn? (row : NormalRow α) (i : Nat) : Option Column :=
  match row.relation with
  | .le => some (.slack i)
  | .ge => some (.surplus i)
  | .eq => none

def artificialColumn? (row : NormalRow α) (i : Nat) : Option Column :=
  if row.relation.hasArtificial then some (.artificial i) else none

/-- The row's coefficient in its slack or surplus column. -/
def auxiliaryCoefficient (row : NormalRow α) : α := if row.relation = .ge then -1 else 1

/-- Lay a row out over all columns: its own coefficients, then `extra` further cells from position
`start` on, zero but for the columns it takes, of which `auxiliary` and `artificial` are the next
free ones. -/
def place (row : NormalRow α) (start extra auxiliary artificial : Nat) : StandardRow α where
  coefficients := row.coefficients ++ (List.range' start extra).map fun j ↦
    if row.relation.hasAuxiliary && j == auxiliary then row.auxiliaryCoefficient
    else if row.relation.hasArtificial && j == artificial then 1
    else 0
  rhs := row.rhs
  relation := row.relation
  negated := row.negated
  auxiliary := if row.relation.hasAuxiliary then some auxiliary else none
  artificial := if row.relation.hasArtificial then some artificial else none
  basic := if row.relation.hasArtificial then artificial else auxiliary

/-- Lay rows out from top to bottom, each taking the next free columns. -/
def placeAll (start extra : Nat) : Nat → Nat → List (NormalRow α) → List (StandardRow α)
  | _, _, [] => []
  | auxiliary, artificial, row :: rest =>
    row.place start extra auxiliary artificial ::
      placeAll start extra (auxiliary + row.relation.hasAuxiliary.toNat)
        (artificial + row.relation.hasArtificial.toNat) rest

end NormalRow

namespace StandardForm

/-- Bring a problem whose shape has been checked into standard form. -/
def ofWellFormed (p : Problem α) : StandardForm α :=
  let rows := p.constraints.map (·.normalize)
  let structural := p.numVariables
  let auxiliary := rows.countP (·.relation.hasAuxiliary)
  let artificial := rows.countP (·.relation.hasArtificial)
  { sense := p.sense
    objective := match p.sense with
      | .maximize => p.objective
      | .minimize => p.objective.map (-·)
    rows := NormalRow.placeAll structural (auxiliary + artificial) structural
      (structural + auxiliary) rows
    columns := (List.range structural).map .structural
      ++ rows.zipIdx.filterMap (fun (row, i) ↦ row.auxiliaryColumn? i)
      ++ rows.zipIdx.filterMap (fun (row, i) ↦ row.artificialColumn? i)
    numStructural := structural
    numAuxiliary := auxiliary
    numArtificial := artificial }

/-- Bring a problem into standard form, unless it is malformed. -/
def ofProblem (p : Problem α) : Except Malformed (StandardForm α) :=
  match p.validate with
  | .error fault => .error fault
  | .ok () => .ok (ofWellFormed p)

end StandardForm

end

namespace StandardForm

variable {α : Type}

/-- How many columns there are, the column of constants not counted. -/
def numColumns (form : StandardForm α) : Nat := form.columns.length

def hasArtificial (form : StandardForm α) : Bool := 0 < form.numArtificial

/-- Whether column `j` is artificial; a position past the end is not. -/
def isArtificial (form : StandardForm α) (j : Nat) : Bool :=
  match form.columns[j]? with
  | some (.artificial _) => true
  | _ => false

/-- Whether the costs were negated to turn a minimization into a maximization. -/
def signFlipped (form : StandardForm α) : Bool := form.sense = .minimize

/-- The headings of columns from left to right, `auxiliary` slacks and surpluses and `artificial`
artificial variables having come before them: a variable has its own name, the others a letter for
their kind and how many of the kind there have been. -/
def headings (name : Nat → String) : (auxiliary artificial : Nat) → List Column → List String
  | _, _, [] => []
  | auxiliary, artificial, .structural j :: rest =>
    name j :: headings name auxiliary artificial rest
  | auxiliary, artificial, .slack _ :: rest | auxiliary, artificial, .surplus _ :: rest =>
    s!"S{auxiliary + 1}" :: headings name (auxiliary + 1) artificial rest
  | auxiliary, artificial, .artificial _ :: rest =>
    s!"A{artificial + 1}" :: headings name auxiliary (artificial + 1) rest

/-- The headings of all columns, the column of constants last. -/
def columnLabels (form : StandardForm α) (p : Problem α) : List String :=
  headings p.variableName 0 0 form.columns ++ ["RHS"]

end StandardForm

end LinearProgramming
