import LinearProgramming.Proofs.Checked.ReadOff
import LinearProgramming.Proofs.Checked.StandardForm
import LinearProgramming.Proofs.Checked.Trace
import LinearProgramming.Proofs.Run.Counted
import LinearProgramming.Proofs.Solve.Replay

/-!
# Checked solves

A solve carried out with every access checked, from the standard form to the solution. It never
meets a position that is not there, and does what it does without the checks. So a solve fails only
by the two faults it has a name for, whatever the problem, the settings and the numbers.
-/

namespace LinearProgramming

variable {α : Type}

/-! ## Solving -/

section Solve

variable [Scalar α] {s : Settings α} {p : Problem α} {status : Status} {r : Run α} {t : Tableau α}
  {form : StandardForm α} {ε : α}

def Engine.toSolution (s : Settings α) (p : Problem α) (form : StandardForm α) (status : Status)
    (e : Engine α) : Option (Solution α) := do
  let solution ← match status with
    | .optimal => e.sheet.toSolution form s.tolerance p e.iterations
    | status => some (.withoutValues status e.iterations)
  return if s.trace then
    { solution with trace := some { columnLabels := form.columnLabels p, steps := e.steps.toList } }
  else solution

/-- Solve a problem, and say what happened on the way. -/
def Checked.solveWithEvents (s : Settings α) (p : Problem α) :
    Option (List (Event α) × Except SolveFault (Solution α)) := do
  match ← Checked.standardForm p with
  | .error fault => return ([], .error (.malformed fault))
  | .ok form =>
    match ← Engine.complete s form with
    | .error e => return (e.events.toList, .error (.iterationLimit s.maxIterations))
    | .ok (e, status) => return (e.events.toList, .ok (← e.toSolution s p form status))

theorem Finished.exists_reached (h : Finished form ε status t) :
    ∃ stage, Reached form ε stage t := by
  rcases h with h | h | h | h <;> exact ⟨_, h⟩

theorem Run.toSolution_engine (h : r.tableau.Shaped (StandardForm.ofWellFormed p).numColumns) :
    r.engine.toSolution s p (.ofWellFormed p) status
      = some (r.toSolution s p (.ofWellFormed p) status) := by
  unfold Engine.toSolution toSolution
  cases status with
  | optimal =>
    simp only [sheet_engine, Tableau.toSolution_sheet h, Option.bind_eq_bind, Option.bind_some]
    rfl
  | infeasible => rfl
  | unbounded => rfl

/-- **A solve with every access checked** is the solve. -/
theorem solveWithEvents_checked (hmax : s.maxIterations < 2 ^ 64) :
    Checked.solveWithEvents s p = some (solveWithEvents s p) := by
  rw [Checked.solveWithEvents, Checked.standardForm_eq, solveWithEvents, StandardForm.ofProblem]
  cases hvalid : p.validate with
  | error fault => rfl
  | ok =>
    have hp : p.WellFormed := hvalid
    have hends := Run.endsOrStops_complete s (.ofWellFormed p)
    simp only [Option.bind_eq_bind, Option.bind_some, Run.complete_engine hp hmax]
    cases hrun : Run.complete s (.ofWellFormed p) with
    | error r => rfl
    | ok result =>
      obtain ⟨r, status⟩ := result
      rw [hrun] at hends
      obtain ⟨stage, hreached⟩ := hends.finished.exists_reached
      simp only [Run.stored, Run.toSolution_engine (hreached.shaped hp), Option.bind_some]
      rfl

/-- **What happens in a solve** is counted: no more pivots than the limit allows, the last one with
the largest number, and at most one turn to phase two. -/
theorem events_le (s : Settings α) (p : Problem α) :
    (solveWithEvents s p).1.countP (·.number?.isSome) ≤ s.maxIterations
    ∧ (solveWithEvents s p).1.countP (·.isTurn) ≤ 1
    ∧ ∀ event ∈ (solveWithEvents s p).1, ∀ n ∈ event.number?, n ≤ s.maxIterations := by
  cases hvalid : p.validate with
  | error fault =>
    rw [solveWithEvents, StandardForm.ofProblem, hvalid]
    exact ⟨Nat.zero_le _, Nat.zero_le _, fun _ hevent ↦ absurd hevent List.not_mem_nil⟩
  | ok =>
    obtain ⟨stage, r, hcounted, hle, hrun⟩ := Run.exists_counted_complete s (.ofWellFormed p)
    have hevents : (solveWithEvents s p).1 = r.events.toList := by
      rw [solveWithEvents, StandardForm.ofProblem, hvalid]
      rcases hrun with ⟨status, hrun⟩ | hrun <;> simp only [hrun]
    rw [hevents]
    exact ⟨hcounted.countP_number?.trans_le hle, (Nat.le_add_right ..).trans hcounted.countP_isTurn,
      fun event hevent n hn ↦ (hcounted.number_le event hevent n hn).trans hle⟩

theorem length_headings (name : ℕ → String) (a r : ℕ) (columns : List Column) :
    (StandardForm.headings name a r columns).length = columns.length := by
  induction columns generalizing a r with
  | nil => rfl
  | cons column columns ih =>
    cases column <;> rw [StandardForm.headings, List.length_cons, List.length_cons, ih]

omit [Scalar α] in
theorem length_columnLabels (form : StandardForm α) (p : Problem α) :
    (form.columnLabels p).length = form.numColumns + 1 := by
  rw [StandardForm.columnLabels, List.length_append, length_headings, List.length_singleton]
  rfl

theorem trace_toSolution_eq_none (htrace : s.trace = false) :
    (r.toSolution s p form status).trace = none := by
  unfold Run.toSolution
  rw [htrace]
  cases status <;> rfl

theorem trace_of_solve {sol : Solution α} {trace : Trace α} (h : solve s p = .ok sol)
    (htrace : sol.trace = some trace) : trace.columnLabels ≠ []
      ∧ ∀ d ∈ trace.steps, d.Fits trace.columnLabels := by
  obtain ⟨hp, r, hrun, hsol, -⟩ := exists_finished_of_solve h
  have hends := Run.endsOrStops_complete s (.ofWellFormed p)
  rw [hrun] at hends
  obtain ⟨-, stage, events, hpassed⟩ := hends
  cases hkeep : s.trace with
  | false =>
    rw [hsol, trace_toSolution_eq_none hkeep] at htrace
    cases htrace
  | true =>
    rw [hsol, Run.trace_toSolution hkeep] at htrace
    obtain rfl := Option.some_inj.mp htrace
    have hlabels := length_columnLabels (.ofWellFormed p) p
    exact ⟨List.ne_nil_of_length_eq_add_one hlabels,
      Run.Passes.fits (r := { r with events := events }) hp hlabels hpassed⟩

end Solve

/-- **No solve looks past an end or runs on.** -/
theorem solve_checked [Reportable α] {s : Settings α} (hmax : s.maxIterations < 2 ^ 64)
    (p : Problem α) : Checked.solveWithEvents s p = some (solveWithEvents s p)
    ∧ (solveWithEvents s p).1.countP (·.number?.isSome) ≤ s.maxIterations
    ∧ (solveWithEvents s p).1.countP (·.isTurn) ≤ 1
    ∧ (∀ event ∈ (solveWithEvents s p).1, ∀ n ∈ event.number?, n ≤ s.maxIterations)
    ∧ ∀ sol, solve s p = .ok sol → sol.iterations ≤ s.maxIterations
      ∧ ∀ trace, sol.trace = some trace → trace.columnLabels ≠ []
        ∧ (∀ d ∈ trace.steps, d.Fits trace.columnLabels)
        ∧ Checked.traceLines trace = some trace.lines := by
  obtain ⟨hpivots, hturns, hnumbers⟩ := events_le s p
  refine ⟨solveWithEvents_checked hmax, hpivots, hturns, hnumbers, fun sol hsol ↦
    ⟨iterations_le_of_solve hsol, fun trace htrace ↦ ?_⟩⟩
  obtain ⟨hne, hfits⟩ := trace_of_solve hsol htrace
  exact ⟨hne, hfits, traceLines_eq hne hfits⟩

/-- As many pivots as a word can count. -/
def Settings.patient : Settings Float where
  maxIterations := 2 ^ 64 - 1
  tolerance := 1e-9
  trace := true

/-- A revenue that is too large to be a number. -/
def glut : Problem Float where
  sense := .maximize
  objective := [1e308, 1]
  constraints := [⟨none, [1, 1], .eq, 1e10⟩, ⟨none, [1, 0], .ge, 1⟩]
  variableNames := []

/-- The objective is too large to be a number, and the solve ends with an infinite one. -/
theorem solve_checked_glut : Settings.patient.maxIterations < 2 ^ 64
    ∧ Checked.solveWithEvents .patient glut = some (solveWithEvents .patient glut)
    ∧ ∃ sol trace, solve .patient glut = .ok sol ∧ sol.status = .optimal ∧ sol.iterations = 3
      ∧ sol.objectiveValue.map Scalar.isFinite = some false ∧ sol.trace = some trace
      ∧ trace.steps.length = 5 ∧ (∀ d ∈ trace.steps, d.Fits trace.columnLabels)
      ∧ Checked.traceLines trace = some trace.lines := by
  have hmax : Settings.patient.maxIterations < 2 ^ 64 := by decide +kernel
  obtain ⟨sol, hsol, hread⟩ := exists_solve_eq_of_map (s := .patient) (p := glut)
    (f := fun sol ↦ (sol.status, sol.iterations, sol.objectiveValue.map Scalar.isFinite,
      sol.trace.map (·.steps.length))) (b := (.optimal, 3, some false, some 5)) (by decide +kernel)
  simp only [Prod.mk.injEq, Option.map_eq_some_iff] at hread
  obtain ⟨hstatus, hiterations, hobjective, trace, htrace, hlength⟩ := hread
  obtain ⟨hchecked, -, -, -, hbounds⟩ := solve_checked hmax glut
  obtain ⟨-, hfits, hlines⟩ := (hbounds sol hsol).2 trace htrace
  exact ⟨hmax, hchecked, sol, trace, hsol, hstatus, hiterations,
    Option.map_eq_some_iff.mpr hobjective, htrace, hlength, hfits, hlines⟩

end LinearProgramming
