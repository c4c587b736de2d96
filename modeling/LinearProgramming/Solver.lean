import LinearProgramming.Run.Basic
import LinearProgramming.Solution.ReadOff

/-!
# Solving a problem

The public entry: bring a problem into standard form, run the simplex method on it, and read the
solution off the last tableau. Having no feasible point or no bound is a status of the solution;
being malformed or reaching the pivot limit is a fault.
-/

namespace LinearProgramming

/-- Why a solve has no solution to hand back. -/
inductive SolveFault
  | malformed (fault : Malformed)
  | iterationLimit (limit : Nat)
  deriving DecidableEq

def SolveFault.message : SolveFault → String
  | malformed fault => s!"Malformed problem: {fault.message}"
  | iterationLimit limit => s!"Iteration limit of {limit} exceeded"

variable {α : Type} [Scalar α]

/-- The solution that a finished run stands for. -/
def Run.toSolution (s : Settings α) (p : Problem α) (form : StandardForm α) (status : Status)
    (r : Run α) : Solution α :=
  let solution := match status with
    | .optimal => r.tableau.toSolution p form s.tolerance r.iterations
    | status => .withoutValues status r.iterations
  if s.trace then
    { solution with trace := some { columnLabels := form.columnLabels p, steps := r.steps.toList } }
  else solution

/-- Solve a problem, and say what happened on the way. A malformed problem makes nothing happen. -/
def solveWithEvents (s : Settings α) (p : Problem α) :
    List (Event α) × Except SolveFault (Solution α) :=
  match StandardForm.ofProblem p with
  | .error fault => ([], .error (.malformed fault))
  | .ok form =>
    match Run.complete s form with
    | .error r => (r.events.toList, .error (.iterationLimit s.maxIterations))
    | .ok (r, status) => (r.events.toList, .ok (r.toSolution s p form status))

/-- Solve a problem. -/
def solve (s : Settings α) (p : Problem α) : Except SolveFault (Solution α) :=
  (solveWithEvents s p).2

end LinearProgramming
