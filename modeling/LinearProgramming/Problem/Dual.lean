import LinearProgramming.Problem.Feasible

/-!
# The symmetric dual

Every row is first brought into the canonical relation of the problem's sense, by negating it
where it points the other way. The rows then become the columns of the dual and its objective
their right-hand sides, the sense turns around, and each variable gives the dual one constraint.

An equality has no canonical direction. Its dual variable would be free in sign, which
non-negative variables cannot express, so such a problem has no dual here.
-/

namespace LinearProgramming

/-- Why a problem has no symmetric dual. -/
inductive DualFault
  | malformed (fault : Malformed)
  | equality (constraint : Nat)
  deriving DecidableEq

def DualFault.message : DualFault → String
  | malformed fault => s!"Malformed problem: {fault.message}"
  | equality constraint =>
    s!"Constraint {constraint} is an equality; its dual variable would be unrestricted in sign"

variable {α : Type} [Scalar α]

/-- A row in the canonical direction: its coefficients and right-hand side, times one if it already
points that way and times minus one if not. -/
def Constraint.oriented (canonical : Relation) (c : Constraint α) : List α × α :=
  let sign : α := if c.relation = canonical then 1 else -1
  (c.coefficients.map (sign * ·), sign * c.rhs)

namespace Problem

/-- Column `j` of a list of rows. A row too short for it counts as zero there. -/
def column (rows : List (List α)) (j : Nat) : List α := rows.map fun row ↦ row[j]?.getD 0

/-- The dual whose constraints are the columns of `rows` and whose objective is `bounds`. -/
def transposed (p : Problem α) (rows : List (List α)) (bounds : List α) : Problem α where
  sense := p.sense.opposite
  objective := bounds
  constraints := p.objective.mapIdx fun j cost ↦
    { name := some (p.variableName j)
      coefficients := column rows j
      relation := p.sense.opposite.canonicalRelation
      rhs := cost }
  variableNames := (List.range p.numConstraints).map fun i ↦ s!"Y_{p.constraintName i}"

/-- The symmetric dual: variable `i` belongs to constraint `i` of the problem, constraint `j` to
its variable `j`. -/
def dual (p : Problem α) : Except DualFault (Problem α) :=
  match p.validate with
  | .error fault => .error (.malformed fault)
  | .ok () =>
    match p.constraints.findIdx? (·.relation = .eq) with
    | some i => .error (.equality i)
    | none =>
      let rows := p.constraints.map (·.oriented p.sense.canonicalRelation)
      .ok (p.transposed (rows.map (·.1)) (rows.map (·.2)))

end Problem

end LinearProgramming
