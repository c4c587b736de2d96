import LinearProgramming.Tableau.Basic

/-!
# Solutions

What a solve hands back: how it ended, and at an optimum the values, the objective in the
problem's own sense, and what the last tableau says about the constraints and the variables. A
solve that was asked to keep a trace also hands back every tableau it went through.
-/

namespace LinearProgramming

/-- How a solve ended. -/
inductive Status
  | optimal
  | infeasible
  | unbounded
  deriving DecidableEq

def Status.keyword : Status → String
  | optimal => "optimal"
  | infeasible => "infeasible"
  | unbounded => "unbounded"

/-- What the objective gains per unit of a constraint's right-hand side. -/
structure ShadowPrice (α : Type) where
  /-- The name of the constraint. -/
  constraint : String
  value : α

/-- How far a variable's objective coefficient has to improve before the variable is worth using. -/
structure ReducedCost (α : Type) where
  /-- The name of the variable. -/
  variableName : String
  /-- Its value in the solution. -/
  value : α
  cost : α
  isBasic : Bool

/-- What the tableau of an optimum says about the problem. -/
structure Analysis (α : Type) where
  /-- One per constraint. -/
  shadowPrices : List (ShadowPrice α)
  /-- One per variable. -/
  reducedCosts : List (ReducedCost α)
  /-- The names of the constraints that leave no room. -/
  bindingConstraints : List String

/-- A tableau that a solve went through. -/
structure Step (α : Type) where
  phase : Phase
  /-- How many pivots had been made. -/
  iteration : Nat
  /-- The row and column of the pivot that led here; the first tableau of a phase has none. -/
  pivot : Option (Nat × Nat)
  basis : List Nat
  /-- The constraint rows and then the objective row. -/
  grid : List (List α)

/-- The tableaus that a solve went through. -/
structure Trace (α : Type) where
  /-- One heading per column, the column of constants last. -/
  columnLabels : List String
  steps : List (Step α)

/-- The result of a solve. -/
structure Solution (α : Type) where
  status : Status
  /-- The value of each variable, at an optimum. -/
  values : Option (List α)
  /-- The objective in the problem's own sense, at an optimum. -/
  objectiveValue : Option α
  /-- How many pivots were made, both phases together. -/
  iterations : Nat
  analysis : Option (Analysis α)
  trace : Option (Trace α)

namespace Solution

variable {α : Type}

def isOptimal (s : Solution α) : Bool := s.status = .optimal

/-- The value of variable `j`, if the solution has one. -/
def value? (s : Solution α) (j : Nat) : Option α := s.values >>= fun values ↦ values[j]?

/-- The result of a solve that found no optimum. -/
def withoutValues (status : Status) (iterations : Nat) : Solution α where
  status := status
  values := none
  objectiveValue := none
  iterations := iterations
  analysis := none
  trace := none

end Solution

/-- A tableau as a step of a trace. -/
def Tableau.toStep {α : Type} (t : Tableau α) (iteration : Nat) (pivot : Option (Nat × Nat)) :
    Step α where
  phase := t.phase
  iteration := iteration
  pivot := pivot
  basis := t.basis
  grid := t.grid

end LinearProgramming
