import LinearProgramming.Proofs.Run.Replay
import LinearProgramming.Proofs.Solve.Limit

/-!
# The trace of a solution

A solution that comes with a trace can be checked against it. The trace is a replay that starts
with the first tableau, its pivots are as many as the solution says, it turns to phase two once if
phase one had something to do and came to an end with all artificial variables at zero, and what is
read off its last tableau is the solution.

All of this holds in any arithmetic, since it says which operations were made and not what their
results are.
-/

namespace LinearProgramming

variable {α : Type} [Scalar α]

namespace Run

variable {s : Settings α} {p : Problem α} {form : StandardForm α} {r : Run α} {status : Status}

theorem trace_toSolution (htrace : s.trace = true) :
    (r.toSolution s p form status).trace
      = some { columnLabels := form.columnLabels p, steps := r.steps.toList } := by
  unfold toSolution
  rw [if_pos htrace]

theorem untraced_toSolution : (r.toSolution s p form .optimal).untraced
    = r.tableau.toSolution p form s.tolerance r.iterations := by
  unfold toSolution
  split_ifs <;> rfl

theorem Kept.toStep_tableau {ε : α} (h : r.Kept form ε) :
    ∀ step ∈ r.steps.toList, step.tableau.toStep step.iteration step.pivot = step := by
  intro step hstep
  obtain ⟨t, stage, iteration, pivot, -, rfl⟩ := h.reached step hstep
  rw [Tableau.tableau_toStep]
  rfl

/-- **Where a traced run ends**, it has kept a replay of itself. -/
theorem Ends.replays (htrace : s.trace = true) (h : Ends s form status r) :
    r.Replays form ∧ r.Kept form s.tolerance := by
  obtain ⟨-, stage, events, hpassed⟩ := h
  obtain ⟨hhead, hchain, hlast⟩ := hpassed.replays htrace
  obtain ⟨hreached, hmoves, hpresent⟩ := hpassed.kept htrace
  exact ⟨⟨hhead, hchain, hlast⟩, ⟨hreached, hmoves, hpresent⟩⟩

theorem Replays.counts {ε : α} (h : r.Replays form) (hfin : Finished form ε status r.tableau) :
    r.steps.toList.countP (·.pivot.isSome) = r.iterations
      ∧ r.steps.toList.tail.countP (·.pivot.isNone)
        = if form.hasArtificial = true ∧ status ≠ .infeasible then 1 else 0 := by
  obtain ⟨l, hl⟩ := h.exists_eq_cons
  obtain ⟨pivot, hlast⟩ := h.last
  have hchain := h.isChain
  rw [hl] at hlast hchain ⊢
  have hpivots := Step.countP_isSome_of_isChain hchain hlast
  have hturns := Step.countP_isNone_of_isChain hchain hlast
  rw [Tableau.toStep, Tableau.toStep, Nat.zero_add] at hpivots
  constructor
  · rw [List.countP_cons, hpivots]
    rfl
  · rw [List.tail_cons, hturns]
    refine if_congr (and_congr ?_ ?_) rfl rfl
    · change (Tableau.initial form).phase = .one ↔ _
      rw [Tableau.phase_initial]
      split_ifs with hart <;> simp [hart]
    · change r.tableau.phase = .two ↔ _
      rw [hfin.phase_eq]
      split_ifs with hstatus <;> simp [hstatus]

end Run

/-- **The trace replays the solve.** It starts with the first tableau, before any pivot. Each later
step is made from the one before it, by the pivot that it names, which is one inside the tableau, or
by the turn to phase two. The turn is made once if there are artificial variables and the problem is
not infeasible, and never otherwise. The pivots are as many as the solution says. At an optimum the
solution is the one that is read off the last step. -/
theorem replay_of_solve {s : Settings α} {p : Problem α} {sol : Solution α}
    (htrace : s.trace = true) (h : solve s p = .ok sol) :
    ∃ trace last, sol.trace = some trace ∧ trace.steps.getLast? = some last
      ∧ trace.steps.head? = some ((Tableau.initial (.ofWellFormed p)).toStep 0 none)
      ∧ trace.steps.IsChain (Step.Follows (.ofWellFormed p))
      ∧ (∀ step ∈ trace.steps, step.tableau.toStep step.iteration step.pivot = step)
      ∧ trace.steps.tail.countP (·.pivot.isNone)
        = (if (StandardForm.ofWellFormed p).hasArtificial = true ∧ sol.status ≠ .infeasible
            then 1 else 0)
      ∧ trace.steps.countP (·.pivot.isSome) = sol.iterations
      ∧ (sol.status = .optimal → sol.untraced
          = last.tableau.toSolution p (.ofWellFormed p) s.tolerance last.iteration) := by
  obtain ⟨hp, r, hrun, hsol, hfin⟩ := exists_finished_of_solve h
  have hends := Run.endsOrStops_complete s (.ofWellFormed p)
  rw [hrun] at hends
  obtain ⟨hreplays, hkept⟩ := Run.Ends.replays htrace hends
  obtain ⟨hpivots, hturns⟩ := hreplays.counts hfin
  obtain ⟨pivot, hlast⟩ := hreplays.last
  have htraced : sol.trace = some
      { columnLabels := (StandardForm.ofWellFormed p).columnLabels p, steps := r.steps.toList } := by
    rw [hsol, Run.trace_toSolution htrace]
  refine ⟨_, _, htraced, hlast, hreplays.head, hreplays.isChain, hkept.toStep_tableau, hturns,
    ?_, ?_⟩
  · rw [hpivots, hsol, Run.iterations_toSolution]
  · intro hstatus
    rw [hsol, hstatus, Run.untraced_toSolution, Tableau.tableau_toStep]
    rfl

/-- Tolerance zero, and a trace. -/
def Settings.zeroToleranceTraced : Settings ℚ := { Settings.zeroTolerance with trace := true }

/-- A pivot of phase one, an exchange, the turn, and two pivots of phase two. -/
theorem replay_of_solve_pinned : Settings.zeroToleranceTraced.trace = true
    ∧ ∃ sol trace last, solve .zeroToleranceTraced pinned = .ok sol ∧ sol.trace = some trace
      ∧ trace.steps.getLast? = some last ∧ sol.status = .optimal ∧ sol.iterations = 4
      ∧ trace.steps.map (·.pivot)
        = [none, some (2, 2), some (0, 0), none, some (3, 3), some (0, 1)]
      ∧ trace.steps.head? = some ((Tableau.initial (.ofWellFormed pinned)).toStep 0 none)
      ∧ trace.steps.IsChain (Step.Follows (.ofWellFormed pinned))
      ∧ trace.steps.tail.countP (·.pivot.isNone) = 1
      ∧ trace.steps.countP (·.pivot.isSome) = 4
      ∧ last.tableau.structuralValues (.ofWellFormed pinned) 0 = [0, 0, 3] := by
  obtain ⟨sol, h, hsol⟩ := exists_solve_eq_of_map (s := .zeroToleranceTraced) (p := pinned)
    (f := fun sol ↦ (sol.status, sol.iterations, sol.values))
    (b := (.optimal, 4, some [0, 0, 3])) (by decide +kernel)
  obtain ⟨sol', h', hpivots⟩ := exists_solve_eq_of_map (s := .zeroToleranceTraced) (p := pinned)
    (f := fun sol ↦ sol.trace.map fun trace ↦ trace.steps.map (·.pivot))
    (b := some [none, some (2, 2), some (0, 0), none, some (3, 3), some (0, 1)])
    (by decide +kernel)
  obtain rfl : sol = sol' := Except.ok.inj (h.symm.trans h')
  simp only [Prod.mk.injEq] at hsol
  obtain ⟨hstatus, hfour, hvalues⟩ := hsol
  obtain ⟨trace, last, htrace, hlast, hhead, hchain, -, hturns, hcount, hread⟩ :=
    replay_of_solve (s := .zeroToleranceTraced) rfl h
  rw [htrace, Option.map_some, Option.some_inj] at hpivots
  have hart : (StandardForm.ofWellFormed pinned).hasArtificial = true := by decide
  rw [if_pos ⟨hart, by rw [hstatus]; decide⟩] at hturns
  have hsame : sol.values
      = some (last.tableau.structuralValues (.ofWellFormed pinned) 0) :=
    congrArg Solution.values (hread hstatus)
  exact ⟨rfl, sol, trace, last, h, htrace, hlast, hstatus, hfour, hpivots, hhead, hchain, hturns,
    hcount.trans hfour, Option.some_inj.mp (hsame.symm.trans hvalues)⟩

end LinearProgramming
