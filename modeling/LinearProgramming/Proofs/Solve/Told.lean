import LinearProgramming.Proofs.Run.Told
import LinearProgramming.Proofs.Solve.PhaseOne
import LinearProgramming.Proofs.Solve.Replay

/-!
# What a listener hears of a solve

Whoever listens to the pivots of a solve hears as many events as pivots are made, numbered from one,
and each names the cell and the variable that was basic in its row until then. The trail of the
solve says the same, step by step, and so does the trace of a solution that comes with one. At the
pivot limit as many events have been heard as the limit allows. The warnings are of another kind: a
solve that gives one has found no feasible point, and says so.

None of this looks at a number. It holds in any arithmetic and with any settings.
-/

namespace LinearProgramming

variable {α : Type} [Scalar α] {s : Settings α} {p : Problem α}

omit [Scalar α] in
/-- That events tell of the pivots among some steps, one by one and in words. -/
structure PivotsTold (number : α → String) (events : List (Event α)) (steps : List (Step α)) :
    Prop where
  length_eq : events.length = (Step.pivots steps).length
  told : ∀ k event, events[k]? = some event → ∃ a b i j c, (Step.pivots steps)[k]? = some (a, b)
    ∧ b.pivot = some (i, j) ∧ a.basis[i]? = some c ∧ event = .pivoted (k + 1) j c i
    ∧ event.message number
      = s!"Pivot {k + 1}: column {j} enters, column {c} leaves (row {i})"

theorem events_of_malformed {fault : Malformed} (h : p.validate = .error fault) :
    (solveWithEvents s p).1 = [] := by
  rw [solveWithEvents, StandardForm.ofProblem, h]

theorem events_of_wellFormed (h : p.WellFormed) :
    (solveWithEvents s p).1 = (Run.last s (.ofWellFormed p)).events.toList := by
  have hform : StandardForm.ofProblem p = .ok (.ofWellFormed p) := by
    rw [StandardForm.ofProblem, h]
  rw [solveWithEvents, hform, Run.last]
  simp only
  rcases Run.complete s (.ofWellFormed p) with _ | ⟨_, _⟩ <;> rfl

theorem pivotsTold_trail (number : α → String) (s : Settings α) (form : StandardForm α) :
    PivotsTold number (heard .trace (Run.last s form).events.toList) (trail s form) := by
  have htold := Run.forall₂_told_trail s form
  refine ⟨htold.length_eq, fun k event hevent ↦ ?_⟩
  obtain ⟨hk, hget⟩ := List.getElem?_eq_some_iff.mp hevent
  have hk' : k < (Step.pivots (trail s form)).length := htold.length_eq ▸ hk
  have hpair := List.Forall₂.get htold hk hk'
  simp only [List.get_eq_getElem, hget] at hpair
  have hnumber := (Run.numbersPivots_last s form).number?_eq hevent
  rcases hpair with ⟨hpivot, hbasic⟩
  have hcount : (Step.pivots (trail s form))[k].2.iteration = k + 1 :=
    Option.some_inj.mp hnumber
  rw [hcount]
  exact ⟨_, _, _, _, _, List.getElem?_eq_getElem hk', hpivot, hbasic, rfl, rfl⟩

omit [Scalar α] in
theorem Event.exists_of_warn {event : Event α} (h : event.level = .warn) :
    ∃ j, event = .phaseOneUnbounded j := by
  cases event with
  | phaseOneUnbounded j => exact ⟨j, rfl⟩
  | _ => cases h

/-- **A listener hears every pivot.** A malformed problem makes nothing happen. Otherwise the events
heard of the pivots are those that lead from step to step of the trail, in order and with their
numbers: each names the cell of the pivot and the column that was basic in its row in the step
before. They are as many as the solution says, and its trace, if there is one, tells the same. A
solve that fails at its limit has made as many pivots as that. Only a solve that finds the problem
infeasible gives a warning. -/
theorem pivotsTold_of_solve (s : Settings α) (p : Problem α) (number : α → String) :
    (∀ fault, p.validate = .error fault → (solveWithEvents s p).1 = [])
    ∧ (p.WellFormed → (trail s (.ofWellFormed p)).IsChain (Step.Follows (.ofWellFormed p))
      ∧ PivotsTold number (heard .trace (solveWithEvents s p).1) (trail s (.ofWellFormed p)))
    ∧ (∀ sol, solve s p = .ok sol →
      (heard .trace (solveWithEvents s p).1).length = sol.iterations
      ∧ (s.trace = true → ∃ trace, sol.trace = some trace
        ∧ PivotsTold number (heard .trace (solveWithEvents s p).1) trace.steps))
    ∧ (∀ limit, solve s p = .error (.iterationLimit limit) →
      limit = s.maxIterations ∧ (heard .trace (solveWithEvents s p).1).length = s.maxIterations)
    ∧ ∀ event ∈ (solveWithEvents s p).1, event.level = .warn →
      ∃ sol, solve s p = .ok sol ∧ sol.status = .infeasible := by
  have hlength : p.WellFormed → (heard .trace (solveWithEvents s p).1).length
      = (Run.last s (.ofWellFormed p)).iterations := by
    intro hp
    rw [events_of_wellFormed hp]
    exact (Run.numbersPivots_last s _).length_heard
  refine ⟨fun fault ↦ events_of_malformed, fun hp ↦ ⟨?_, ?_⟩, fun sol h ↦ ?_, fun limit h ↦ ?_,
    fun event hevent hwarn ↦ ?_⟩
  · obtain ⟨stage, r, hr, hsteps⟩ := exists_passes_trail s (.ofWellFormed p)
    exact hsteps ▸ (hr.replays rfl).isChain
  · rw [events_of_wellFormed hp]
    exact pivotsTold_trail number s _
  · obtain ⟨hp, r, hrun, hsol, -⟩ := exists_finished_of_solve h
    have hlast : Run.last s (.ofWellFormed p) = r := by rw [Run.last, hrun]
    constructor
    · rw [hlength hp, hlast, hsol, Run.iterations_toSolution]
    · intro htrace
      refine ⟨_, hsol ▸ Run.trace_toSolution htrace, ?_⟩
      -- A solve that keeps a trace keeps its trail.
      have hkept : trail s (.ofWellFormed p) = r.steps.toList := by
        have hsame : { s with trace := true } = s := by rw [← htrace]
        rw [trail, hsame, hrun]
      rw [events_of_wellFormed hp, ← hkept]
      exact pivotsTold_trail number s _
  · obtain ⟨hp, rfl, -⟩ := limit_eq_of_solve h
    refine ⟨rfl, ?_⟩
    rw [solve_of_wellFormed hp] at h
    split at h
    · rename_i r hrun
      rw [hlength hp, Run.last, hrun]
      exact Run.iterations_eq_of_complete hrun
    · cases h
  · obtain ⟨j, rfl⟩ := Event.exists_of_warn hwarn
    exact (exists_of_mem_solveWithEvents hevent).2.1

/-- The second pivot is an exchange, and the last one drives out what came in with it. Within a
limit of three pivots the last one is not heard, a row too long makes nothing happen, and the
problem that gives a warning is found infeasible. -/
theorem pivotsTold_of_solve_pinned : pinned.WellFormed
    ∧ heard .trace (solveWithEvents .zeroToleranceTraced pinned).1
      = [.pivoted 1 2 7 2, .pivoted 2 0 5 0, .pivoted 3 3 4 3, .pivoted 4 1 0 0]
    ∧ (∃ sol trace, solve .zeroToleranceTraced pinned = .ok sol ∧ sol.trace = some trace
      ∧ sol.iterations = 4
      ∧ PivotsTold toString (heard .trace (solveWithEvents .zeroToleranceTraced pinned).1)
        trace.steps)
    ∧ PivotsTold toString (heard .trace (solveWithEvents .zeroTolerance pinned).1)
      (trail .zeroTolerance (.ofWellFormed pinned))
    ∧ (heard .trace
      (solveWithEvents { Settings.zeroTolerance with maxIterations := 3 } pinned).1).length = 3
    ∧ (solveWithEvents .zeroTolerance { pinned with objective := [1, 2] }).1 = []
    ∧ ∃ sol, solve .standard nearlyParallel = .ok sol ∧ sol.status = .infeasible := by
  have hp : pinned.WellFormed := rfl
  have hheard : heard .trace (solveWithEvents .zeroToleranceTraced pinned).1
      = [.pivoted 1 2 7 2, .pivoted 2 0 5 0, .pivoted 3 3 4 3, .pivoted 4 1 0 0] := by
    decide +kernel
  obtain ⟨sol, hsol, hfour⟩ := exists_solve_eq_of_map (s := .zeroToleranceTraced) (p := pinned)
    (f := fun sol ↦ sol.iterations) (b := 4) (by decide +kernel)
  obtain ⟨trace, htrace, htold⟩ :=
    ((pivotsTold_of_solve .zeroToleranceTraced pinned toString).2.2.1 sol hsol).2 rfl
  have hlimit : solve { Settings.zeroTolerance with maxIterations := 3 } pinned
      = .error (.iterationLimit 3) := by
    refine (solve_eq_error_iff (s := { Settings.zeroTolerance with maxIterations := 3 })
      hp).mpr fun sol h ↦ ?_
    have hnot : (solve { Settings.zeroTolerance with maxIterations := 3 } pinned).isOk = false := by
      decide +kernel
    rw [h] at hnot
    cases hnot
  refine ⟨hp, hheard, ⟨sol, trace, hsol, htrace, hfour, htold⟩,
    ((pivotsTold_of_solve .zeroTolerance pinned toString).2.1 hp).2,
    ((pivotsTold_of_solve _ pinned toString).2.2.2.1 3 hlimit).2,
    (pivotsTold_of_solve _ _ toString).1 (.rowLength 0 2 3) (by decide +kernel),
    (pivotsTold_of_solve _ _ toString).2.2.2.2 (.phaseOneUnbounded 0) (by decide +kernel) rfl⟩

end LinearProgramming
