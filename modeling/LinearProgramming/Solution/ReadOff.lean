import LinearProgramming.Solution.Basic

/-!
# Reading a solution off a tableau

At an optimum every variable is either basic, with its row's constant as its value, or zero. The
objective row then holds the prices: a constraint's shadow price stands in the column that started
out as its unit vector, up to three changes of sign. A surplus column started as the negated unit
vector, a negated row is priced against the negated right-hand side, and a minimization was solved
with negated costs.

Residue within the tolerance of zero is rounded to zero in the values and in the prices. The
objective is reported as it stands.
-/

namespace LinearProgramming

variable {α : Type} [Scalar α]

namespace Tableau

/-- The values of the structural variables at the basic solution. Rows are visited from top to
bottom. -/
def structuralValues (form : StandardForm α) (tolerance : α) (t : Tableau α) : List α :=
  t.rows.foldl (fun values row ↦
    values.set row.basic (Scalar.snap tolerance (t.constantOf row.cells)))
    (List.replicate form.numStructural 0)

/-- The price that the objective row puts on a row of the standard form. -/
def rowPrice (t : Tableau α) (row : StandardRow α) : α :=
  match row.relation, row.auxiliary, row.artificial with
  | .le, some slack, _ => cellAt t.objective slack
  | .ge, some surplus, _ => -cellAt t.objective surplus
  | _, _, some artificial => cellAt t.objective artificial
  | _, _, none => 0

/-- The shadow price of the constraint behind a row, in the problem's own sense. -/
def shadowPrice (form : StandardForm α) (tolerance : α) (t : Tableau α) (row : StandardRow α) : α :=
  let price := t.rowPrice row
  let price := if row.negated then -price else price
  Scalar.snap tolerance (if form.signFlipped then -price else price)

/-- Whether the constraint behind a row leaves no room: it is an equality, or its slack or surplus
is not basic, or is basic at zero. -/
def isBinding (tolerance : α) (t : Tableau α) (row : StandardRow α) : Bool :=
  match row.auxiliary with
  | none => true
  | some column =>
    match t.rows.find? (·.basic == column) with
    | none => true
    | some row => Scalar.abs (t.constantOf row.cells) ≤ tolerance

/-- The reduced cost of variable `j`; a basic variable has none. -/
def reducedCost (tolerance : α) (t : Tableau α) (j : Nat) : α :=
  if t.basis.contains j then 0 else Scalar.snap tolerance (cellAt t.objective j)

/-- What the tableau says about the constraints and the variables of a problem. -/
def analysis (p : Problem α) (form : StandardForm α) (tolerance : α) (t : Tableau α) :
    Analysis α where
  shadowPrices := form.rows.mapIdx fun i row ↦
    { constraint := p.constraintName i, value := t.shadowPrice form tolerance row }
  reducedCosts := (t.structuralValues form tolerance).mapIdx fun j value ↦
    { variableName := p.variableName j
      value := value
      cost := t.reducedCost tolerance j
      isBasic := t.basis.contains j }
  bindingConstraints := form.rows.zipIdx.filterMap fun (row, i) ↦
    if t.isBinding tolerance row then some (p.constraintName i) else none

/-- The solution that an optimal tableau stands for. -/
def toSolution (p : Problem α) (form : StandardForm α) (tolerance : α) (iterations : Nat)
    (t : Tableau α) : Solution α where
  status := .optimal
  values := some (t.structuralValues form tolerance)
  objectiveValue := some (if form.signFlipped then -t.objectiveValue else t.objectiveValue)
  iterations := iterations
  analysis := some (t.analysis p form tolerance)
  trace := none

end Tableau

end LinearProgramming
