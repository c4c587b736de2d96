import LinearProgramming.Problem.Basic

/-!
# Well-formed problems and feasible points

The solver takes problems of a bounded size whose rows fit the number of variables and whose
numbers are finite. `Problem.validate` looks for the first violation: sizes, then names, then the
objective, then the constraints in order, and of each constraint its length before its numbers.

What a vector of values is worth, and whether it is allowed, is asked of any problem. A tolerance
widens every test by the same amount; with tolerance zero and exact arithmetic these are the
textbook conditions.
-/

namespace LinearProgramming

/-! ## Problems that the solver takes -/

/-- The largest number of variables the solver accepts. -/
def maxVariables : Nat := 20

/-- The largest number of constraints the solver accepts. -/
def maxConstraints : Nat := 20

/-- Why a problem is not well formed. -/
inductive Malformed
  | noVariables
  | tooManyVariables (count : Nat)
  | tooManyConstraints (count : Nat)
  | variableNames (expected found : Nat)
  | rowLength (constraint expected found : Nat)
  /-- A number that is infinite or undefined, and the name of the place that holds it. -/
  | nonFinite (place : String)
  deriving DecidableEq

def Malformed.message : Malformed → String
  | noVariables => "Problem has no variables"
  | tooManyVariables count =>
    s!"Problem has {count} variables, at most {maxVariables} are supported"
  | tooManyConstraints count =>
    s!"Problem has {count} constraints, at most {maxConstraints} are supported"
  | variableNames expected found => s!"{found} variable names given for {expected} variables"
  | rowLength constraint expected found =>
    s!"Constraint {constraint} has {found} coefficients, expected {expected}"
  | nonFinite place => s!"Non-finite value in {place}"

variable {α : Type} [Scalar α]

/-- Judge constraint `i` of a problem in `n` variables. -/
def Constraint.validate (n i : Nat) (c : Constraint α) : Except Malformed Unit :=
  if c.coefficients.length ≠ n then
    .error (.rowLength i n c.coefficients.length)
  else if !Scalar.isFinite c.rhs || c.coefficients.any (!Scalar.isFinite ·) then
    .error (.nonFinite (c.label i))
  else .ok ()

namespace Problem

/-- Judge the constraints of a problem in `n` variables in order, the first of them being number
`i`. -/
def validateRows (n : Nat) : Nat → List (Constraint α) → Except Malformed Unit
  | _, [] => .ok ()
  | i, c :: rest =>
    match c.validate n i with
    | .error fault => .error fault
    | .ok () => validateRows n (i + 1) rest

/-- Find the first reason, if any, why the solver does not take the problem. -/
def validate (p : Problem α) : Except Malformed Unit :=
  if p.numVariables = 0 then .error .noVariables
  else if maxVariables < p.numVariables then .error (.tooManyVariables p.numVariables)
  else if maxConstraints < p.numConstraints then .error (.tooManyConstraints p.numConstraints)
  else if !p.variableNames.isEmpty && p.variableNames.length != p.numVariables then
    .error (.variableNames p.numVariables p.variableNames.length)
  else if p.objective.any (!Scalar.isFinite ·) then .error (.nonFinite "objective")
  else validateRows p.numVariables 0 p.constraints

/-- A problem the solver takes. -/
def WellFormed (p : Problem α) : Prop := p.validate = .ok ()

end Problem

/-! ## Points of a problem -/

namespace Constraint

/-- The left-hand side at `values`. -/
def lhs (c : Constraint α) (values : List α) : α := Scalar.dot c.coefficients values

/-- Whether the constraint holds at `values` up to `tolerance`. -/
def isSatisfied (c : Constraint α) (values : List α) (tolerance : α) : Bool :=
  match c.relation with
  | .le => c.lhs values ≤ c.rhs + tolerance
  | .ge => c.rhs - tolerance ≤ c.lhs values
  | .eq => Scalar.abs (c.lhs values - c.rhs) ≤ tolerance

end Constraint

namespace Problem

/-- The objective at `values`. -/
def evaluate (p : Problem α) (values : List α) : α := Scalar.dot p.objective values

/-- Whether `values` has one entry per variable, none below zero, and satisfies every constraint,
all up to `tolerance`. -/
def isFeasible (p : Problem α) (values : List α) (tolerance : α) : Bool :=
  values.length == p.numVariables && values.all (-tolerance ≤ ·)
    && p.constraints.all (·.isSatisfied values tolerance)

end Problem

end LinearProgramming
