import LinearProgramming.Proofs.Run.PhaseOne
import LinearProgramming.Proofs.Solve.Limit

/-!
# The warning of phase one

A solve that reports a column without limit in phase one hands back that the problem is infeasible,
although the objective of the phase is bounded. With tolerance zero, or fewer than two artificial
variables, it does not come to that. Otherwise it may, and the problem may well be feasible.
-/

open Finset

namespace LinearProgramming

section

variable {α : Type} [Scalar α] {s : Settings α} {p : Problem α} {j : ℕ}

theorem exists_of_mem_solveWithEvents
    (h : Event.phaseOneUnbounded j ∈ (solveWithEvents s p).1) :
    p.WellFormed ∧ (∃ sol, solve s p = .ok sol ∧ sol.status = .infeasible)
      ∧ ∃ r, Run.Passes s (.ofWellFormed p) (.optimizing .one) r
        ∧ r.tableau.enteringColumn (.ofWellFormed p) s.tolerance = some j
        ∧ r.tableau.leavingRow s.tolerance j = none := by
  rw [solveWithEvents] at h
  split at h
  · exact absurd h List.not_mem_nil
  · rename_i form hform
    rw [StandardForm.ofProblem] at hform
    split at hform
    · cases hform
    · rename_i hp
      cases hform
      have hrun := Run.endsOrStops_complete s (.ofWellFormed p)
      split at h
      · -- A run that was stopped is one on the way.
        rename_i r hstopped
        rw [hstopped] at hrun
        obtain ⟨stage, hr⟩ := hrun
        exact absurd (Array.mem_toList_iff.mp h) (hr.notMem_events j)
      · rename_i r status hended
        obtain ⟨q, hends, hle, rfl⟩ := Run.complete_eq_ok_iff.mp hended
        simp only [Run.report, Array.mem_toList_iff, Array.mem_push] at h
        obtain ⟨rfl, hlast⟩ := Run.Concludes.exists_of_mem_events hends .start hle
          (h.resolve_right fun hne ↦ by cases hne)
        exact ⟨hp, ⟨_, (solve_eq_ok_iff hp).mpr ⟨q, _, hends, hle, rfl⟩, Run.status_toSolution⟩,
          hlast⟩

end

variable {s : Settings ℚ} {p : Problem ℚ} {j : ℕ}

/-- **A column without limit adds up.** Where a solve gives the warning, it reports the problem to
be infeasible. This takes a tolerance above zero and two artificial variables: the cells of the
column all count as zero, and those in the rows of artificial variables sum to more. All that the
tableau shows is that the columns of a feasible point have to make up for the sum of the artificial
variables with such cells. -/
theorem addsUp_of_mem_solveWithEvents (hε : 0 ≤ s.tolerance)
    (h : Event.phaseOneUnbounded j ∈ (solveWithEvents s p).1) :
    (∃ sol, solve s p = .ok sol ∧ sol.status = .infeasible)
      ∧ 0 < s.tolerance ∧ 2 ≤ (StandardForm.ofWellFormed p).numArtificial
      ∧ ∃ r, Run.Passes s (.ofWellFormed p) (.optimizing .one) r
        ∧ r.tableau.AddsUp (.ofWellFormed p) s.tolerance j
        ∧ ∀ x, p.isFeasible x 0 = true → -r.tableau.objectiveValue
          ≤ (r.tableau.artificialRows (.ofWellFormed p)).length * s.tolerance
            * ∑ c ∈ range (StandardForm.ofWellFormed p).numColumns,
                StandardForm.extension p x c := by
  obtain ⟨hp, hsol, r, hr, hj, hi⟩ := exists_of_mem_solveWithEvents h
  have hrep := hr.reached.represents hp hε
  have hphase := hr.reached.phase_eq
  have hadds := hrep.addsUp hphase hj hi
  obtain ⟨hpos, htwo⟩ := hadds.two_le hε
  refine ⟨hsol, hpos, htwo.trans hrep.length_artificialRows_le, r, hr, hadds, fun x hx ↦ ?_⟩
  obtain ⟨hholds, hnonneg⟩ := StandardForm.extension_of_isFeasible hp hx
  exact hrep.neg_objectiveValue_le hphase hj hadds hholds hnonneg
    (StandardForm.genuine_extension p x)

/-- Three equations that tell the variables apart by less than a billionth, and one point. -/
def nearlyParallel : Problem ℚ where
  sense := .minimize
  objective := [1, 1]
  constraints :=
    [⟨none, [-1, 2], .eq, 1⟩,
      ⟨none, [-(1 - 1 / 1073741824), 2], .eq, 1 + 1 / 2147483648⟩,
      ⟨none, [-(2 - 1 / 1073741824), 4], .eq, 2 + 1 / 2147483648⟩]
  variableNames := []

theorem addsUp_of_mem_solveWithEvents_nearlyParallel :
    0 ≤ (Settings.standard (α := ℚ)).tolerance
      ∧ Event.phaseOneUnbounded 0 ∈ (solveWithEvents .standard nearlyParallel).1
      ∧ ∃ r, Run.Passes .standard (.ofWellFormed nearlyParallel) (.optimizing .one) r
        ∧ r.tableau.AddsUp (.ofWellFormed nearlyParallel) (Settings.standard (α := ℚ)).tolerance 0
        ∧ -r.tableau.objectiveValue
          ≤ (r.tableau.artificialRows (.ofWellFormed nearlyParallel)).length
            * (Settings.standard (α := ℚ)).tolerance * (5 / 4) := by
  have hε : 0 ≤ (Settings.standard (α := ℚ)).tolerance := by decide +kernel
  have hmem : Event.phaseOneUnbounded 0 ∈ (solveWithEvents .standard nearlyParallel).1 := by
    decide +kernel
  obtain ⟨-, -, -, r, hr, hadds, hfar⟩ := addsUp_of_mem_solveWithEvents hε hmem
  have hsum : ∑ c ∈ range (StandardForm.ofWellFormed nearlyParallel).numColumns,
      StandardForm.extension nearlyParallel [1 / 2, 3 / 4] c = 5 / 4 := by decide +kernel
  refine ⟨hε, hmem, r, hr, hadds, ?_⟩
  rw [← hsum]
  exact hfar [1 / 2, 3 / 4] (by decide +kernel)

/-- **A feasible problem reported to be infeasible.** After the first pivot the entering column has
cells of two to the minus thirtieth in the other two rows, and a negative one in the first. -/
theorem phaseOneUnbounded_mem_nearlyParallel : 0 ≤ (Settings.standard (α := ℚ)).tolerance
    ∧ nearlyParallel.WellFormed
    ∧ Event.phaseOneUnbounded 0 ∈ (solveWithEvents .standard nearlyParallel).1
    ∧ (∃ sol, solve .standard nearlyParallel = .ok sol ∧ sol.status = .infeasible)
    ∧ nearlyParallel.isFeasible [1 / 2, 3 / 4] 0 = true := by
  obtain ⟨sol, h, hstatus⟩ := exists_solve_eq_of_map (s := .standard) (p := nearlyParallel)
    (f := fun sol ↦ sol.status) (b := .infeasible) (by decide +kernel)
  exact ⟨by decide +kernel, rfl, by decide +kernel, ⟨sol, h, hstatus⟩, by decide +kernel⟩

end LinearProgramming
