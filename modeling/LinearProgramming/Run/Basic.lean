import LinearProgramming.Run.Event
import LinearProgramming.Tableau.PivotRule

/-!
# Runs of the simplex method

A run is a solve in progress: the tableau, the number of pivots so far, the events, and, where a
trace is wanted, the tableaus gone through. Its stages are functions on runs. Each either goes on
or stops at the pivot limit, and a run that is stopped is still handed back, since what happened
up to then has been observed.

The limit is shared by all pivots: those of the two phases and those that exchange leftover
artificial variables between them. It is looked at before each pivot, so a run that needs no
further pivot is never stopped. The main loop recurses on the number of pivots that are left.
-/

namespace LinearProgramming

/-- How to solve. -/
structure Settings (α : Type) where
  /-- How many pivots are made at most. -/
  maxIterations : Nat
  /-- How far from zero a number may be and still count as zero. -/
  tolerance : α
  /-- Whether to keep the tableaus. -/
  trace : Bool

/-- Ten thousand pivots, a tolerance of one in a billion, no trace. -/
def Settings.standard {α : Type} [Scalar α] : Settings α where
  maxIterations := 10000
  tolerance := 1e-9
  trace := false

/-- A solve in progress. -/
structure Run (α : Type) where
  tableau : Tableau α
  /-- How many pivots have been made. -/
  iterations : Nat
  events : Array (Event α)
  /-- The tableaus gone through; none unless a trace is kept. -/
  steps : Array (Step α)

/-- Why no further pivot was made: no column wants to enter, or none of the rows limits the one
that does. -/
inductive Stop
  | noEntering
  | noLeaving (column : Nat)
  deriving DecidableEq

variable {α : Type} [Scalar α]

namespace Run

def report (event : Event α) (r : Run α) : Run α := { r with events := r.events.push event }

/-- Keep the present tableau, if a trace is wanted. -/
def record (s : Settings α) (pivot : Option (Nat × Nat)) (r : Run α) : Run α :=
  if s.trace then { r with steps := r.steps.push (r.tableau.toStep r.iterations pivot) } else r

def start (s : Settings α) (form : StandardForm α) : Run α :=
  record s none
    { tableau := .initial form
      iterations := 0
      events := #[.started form.numStructural form.rows.length form.numAuxiliary form.numArtificial]
      steps := #[] }

def pivot (s : Settings α) (i j : Nat) (r : Run α) : Run α :=
  record s (some (i, j))
    { tableau := r.tableau.pivot i j
      iterations := r.iterations + 1
      events := r.events.push (.pivoted (r.iterations + 1) j (r.tableau.basis[i]?.getD 0) i)
      steps := r.steps }

/-- Pivot as long as a column wants to enter and a row can leave, `budget` times at most. -/
def optimizeWithin (s : Settings α) (form : StandardForm α) (budget : Nat) (r : Run α) :
    Except (Run α) (Run α × Stop) :=
  match r.tableau.enteringColumn form s.tolerance with
  | none => .ok (r, .noEntering)
  | some j =>
    match r.tableau.leavingRow s.tolerance j with
    | none => .ok (r, .noLeaving j)
    | some i =>
      match budget with
      | 0 => .error r
      | budget + 1 => optimizeWithin s form budget (r.pivot s i j)

/-- Pivot as long as a column wants to enter and a row can leave. -/
def optimize (s : Settings α) (form : StandardForm α) (r : Run α) :
    Except (Run α) (Run α × Stop) :=
  optimizeWithin s form (s.maxIterations - r.iterations) r

/-- Exchange the artificial variables that are basic in the given rows, in order, for other
columns. A row that has nothing to exchange for is redundant and stays as it is. -/
def driveOutOf (s : Settings α) (form : StandardForm α) : List Nat → Run α →
    Except (Run α) (Run α)
  | [], r => .ok r
  | i :: rest, r =>
    if (r.tableau.basis[i]?.any form.isArtificial) then
      match r.tableau.replacementColumn form s.tolerance i with
      | none => driveOutOf s form rest (r.report (.rowRedundant i))
      | some j =>
        if r.iterations < s.maxIterations then driveOutOf s form rest (r.pivot s i j)
        else .error r
    else driveOutOf s form rest r

def driveOut (s : Settings α) (form : StandardForm α) (r : Run α) : Except (Run α) (Run α) :=
  driveOutOf s form (List.range r.tableau.numRows) r

/-- Turn to the problem's own objective. -/
def enterPhaseTwo (s : Settings α) (form : StandardForm α) (r : Run α) : Run α :=
  record s none
    { r with
      tableau := r.tableau.installPhaseTwo form
      events := r.events.push (.phaseOneComplete r.iterations) }

/-- Optimize the problem's own objective. -/
def phaseTwo (s : Settings α) (form : StandardForm α) (r : Run α) :
    Except (Run α) (Run α × Status) :=
  match r.optimize s form with
  | .error r => .error r
  | .ok (r, .noEntering) => .ok (r, .optimal)
  | .ok (r, .noLeaving _) => .ok (r, .unbounded)

/-- Drive the artificial variables to zero and go on to phase two. Where they do not all reach it,
there is no feasible point. -/
def phaseOne (s : Settings α) (form : StandardForm α) (r : Run α) :
    Except (Run α) (Run α × Status) :=
  match r.optimize s form with
  | .error r => .error r
  | .ok (r, .noLeaving j) => .ok (r.report (.phaseOneUnbounded j), .infeasible)
  | .ok (r, .noEntering) =>
    if s.tolerance < Scalar.abs r.tableau.objectiveValue then
      .ok (r.report (.artificialsRemain (-r.tableau.objectiveValue)), .infeasible)
    else
      match r.driveOut s form with
      | .error r => .error r
      | .ok r => (r.enterPhaseTwo s form).phaseTwo s form

/-- Both phases, or the second alone if there is nothing for the first to do. -/
def phases (s : Settings α) (form : StandardForm α) (r : Run α) :
    Except (Run α) (Run α × Status) :=
  match r.tableau.phase with
  | .one => r.phaseOne s form
  | .two => r.phaseTwo s form

/-- A whole run: to a status, or to the pivot limit. -/
def complete (s : Settings α) (form : StandardForm α) : Except (Run α) (Run α × Status) :=
  match (start s form).phases s form with
  | .error r => .error r
  | .ok (r, status) => .ok (r.report (.finished status r.iterations), status)

end Run

end LinearProgramming
