import LinearProgramming.Scalar

/-!
# Linear programs

A problem asks for the largest or smallest value of a linear objective over the non-negative
vectors that satisfy finitely many linear constraints. Variables and constraints are addressed by
position; names are for display only and every position has one, given or made up.

Nothing here requires the rows to have the right length or the numbers to be finite: a `Problem`
is whatever a caller wrote down, and `Problem.validate` judges it.
-/

namespace LinearProgramming

/-- Whether the objective is to be made large or small. -/
inductive Sense
  | maximize
  | minimize
  deriving DecidableEq

/-- How the left-hand side of a constraint compares with its right-hand side. -/
inductive Relation
  | le
  | ge
  | eq
  deriving DecidableEq

namespace Sense

def opposite : Sense → Sense
  | maximize => minimize
  | minimize => maximize

/-- The relation a constraint has in this sense's symmetric form: upper bounds when maximizing,
lower bounds when minimizing. -/
def canonicalRelation : Sense → Relation
  | maximize => .le
  | minimize => .ge

/-- How the sense is written in a problem file. -/
def keyword : Sense → String
  | maximize => "maximize"
  | minimize => "minimize"

end Sense

namespace Relation

/-- The relation between the two sides after both are negated. -/
def flipped : Relation → Relation
  | le => ge
  | ge => le
  | eq => eq

def symbol : Relation → String
  | le => "<="
  | ge => ">="
  | eq => "="

end Relation

/-- A linear constraint, `coefficients · x` compared with `rhs`. -/
structure Constraint (α : Type) where
  /-- A name for display, if one was given. -/
  name : Option String
  /-- One coefficient per variable. -/
  coefficients : List α
  relation : Relation
  rhs : α

/-- A linear program over non-negative variables. -/
structure Problem (α : Type) where
  sense : Sense
  /-- One objective coefficient per variable. -/
  objective : List α
  constraints : List (Constraint α)
  /-- Names of the variables for display: none at all, or one each. -/
  variableNames : List String

/-- The number that position `i` has for display, counted from one. Positions are 64-bit words, and
so are their numbers: that of the last position of all is zero. -/
def displayNumber (i : Nat) : Nat := (i + 1) % Nat.pow 2 64

/-- The display name of constraint `i`, made up from its number where none was given. -/
def Constraint.label {α : Type} (c : Constraint α) (i : Nat) : String :=
  c.name.getD s!"C{displayNumber i}"

namespace Problem

variable {α : Type}

/-! ## Building a problem -/

/-- A problem with an objective and nothing else. -/
def ofObjective (sense : Sense) (objective : List α) : Problem α where
  sense := sense
  objective := objective
  constraints := []
  variableNames := []

/-- The problem with one more constraint, after those it has. -/
def subjectTo (p : Problem α) (c : Constraint α) : Problem α :=
  { p with constraints := p.constraints ++ [c] }

/-- The problem with constraint `i` left out. A position past the end leaves out nothing. -/
def removeConstraint (p : Problem α) (i : Nat) : Problem α :=
  { p with constraints := p.constraints.eraseIdx i }

/-! ## Size and names -/

/-- How many variables the problem has: one per objective coefficient. -/
def numVariables (p : Problem α) : Nat := p.objective.length

def numConstraints (p : Problem α) : Nat := p.constraints.length

/-- The display name of variable `j`, made up from its number where none was given. -/
def variableName (p : Problem α) (j : Nat) : String :=
  p.variableNames[j]?.getD s!"X{displayNumber j}"

/-- The display name of constraint `i`; a position past the end has its made-up name. -/
def constraintName (p : Problem α) (i : Nat) : String :=
  match p.constraints[i]? with
  | some c => c.label i
  | none => s!"C{displayNumber i}"

end Problem

end LinearProgramming
