import LinearProgramming.Solution.Basic

/-!
# Events of a solve

A solve reports what it does as a sequence of events. Each has a level, by which a listener
decides whether to hear it, and a text.
-/

namespace LinearProgramming

/-- How loud an event is. -/
inductive Level
  | warn
  | debug
  | trace
  deriving DecidableEq

def Level.keyword : Level → String
  | warn => "WARN"
  | debug => "DEBUG"
  | trace => "TRACE"

/-- Something that happens in a solve. -/
inductive Event (α : Type)
  /-- The standard form is ready: how many structural columns, rows, slack and surplus columns, and
  artificial columns it has. -/
  | started (structural rows auxiliary artificial : Nat)
  /-- Pivot number `count`. -/
  | pivoted (count entering leaving row : Nat)
  /-- Phase one found no row to limit a column, which its bounded objective does not allow. -/
  | phaseOneUnbounded (column : Nat)
  /-- Phase one ended with artificial variables that do not sum to zero. -/
  | artificialsRemain (sum : α)
  /-- A row in which nothing can replace the artificial variable. -/
  | rowRedundant (row : Nat)
  | phaseOneComplete (iterations : Nat)
  | finished (status : Status) (iterations : Nat)
  deriving DecidableEq

namespace Event

variable {α : Type}

def level : Event α → Level
  | phaseOneUnbounded _ => .warn
  | pivoted .. => .trace
  | _ => .debug

private def statusName : Status → String
  | .optimal => "Optimal"
  | .infeasible => "Infeasible"
  | .unbounded => "Unbounded"

/-- The event in words, numbers written by `number`. -/
def message (number : α → String) : Event α → String
  | started structural rows auxiliary artificial =>
    s!"Solving {structural} variables x {rows} constraints " ++
      s!"({auxiliary} auxiliary, {artificial} artificial columns)"
  | pivoted count entering leaving row =>
    s!"Pivot {count}: column {entering} enters, column {leaving} leaves (row {row})"
  | phaseOneUnbounded column =>
    s!"Phase 1 reported an unbounded column {column}; treating as infeasible"
  | artificialsRemain sum =>
    s!"Phase 1 ended with artificial sum {number sum}; no feasible region"
  | rowRedundant row => s!"Row {row} is redundant; its artificial stays basic at zero"
  | phaseOneComplete iterations => s!"Phase 1 complete after {iterations} iterations"
  | finished status iterations =>
    s!"Finished as {statusName status} after {iterations} iterations"

end Event

end LinearProgramming
