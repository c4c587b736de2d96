import LinearProgramming.Proofs.Run.Cycle
import LinearProgramming.Proofs.Solve.Limit

/-!
# How many pivots a solve takes

With exact arithmetic and tolerance zero the pivots of a solve that ends are bounded by the size of
its standard form: in each phase by the number of ways to choose as many basic columns as there are
constraints, and between the phases by one exchange for each constraint. A solve that meets a limit
as large as that is in a cycle, and no larger limit helps it out.
-/

namespace LinearProgramming

variable {s : Settings ℚ} {p : Problem ℚ}

theorem StandardForm.numBases_ofWellFormed (p : Problem ℚ) : (ofWellFormed p).numBases
    = (ofWellFormed p).numColumns.choose p.numConstraints := by
  rw [numBases, length_rows_ofWellFormed]

/-- **The pivots are bounded, or the solve cycles.** A solve that ends takes at most two pivots for
each choice of as many columns as there are constraints, and one for each constraint, since no two
tableaus that the rules pivot in the same phase have the same set of basic columns. A solve that is
stopped at a limit as large as that has come back to a tableau it had before, but for the order of
the rows, and is stopped at every larger limit too. -/
theorem iterations_le_or_cycles (hexact : s.tolerance = 0) (hp : p.WellFormed) :
    (∀ sol, solve s p = .ok sol →
      sol.iterations ≤ 2 * (StandardForm.ofWellFormed p).numColumns.choose p.numConstraints
          + p.numConstraints
        ∧ ∀ phase r q, Run.Passes s (.ofWellFormed p) (.optimizing phase) r →
          Run.Passes s (.ofWellFormed p) (.optimizing phase) q →
          r.tableau.basis.toFinset = q.tableau.basis.toFinset → r.iterations = q.iterations)
    ∧ ∀ limit, solve s p = .error (.iterationLimit limit) →
      2 * (StandardForm.ofWellFormed p).numColumns.choose p.numConstraints + p.numConstraints
          ≤ limit →
        Run.Cycles s (.ofWellFormed p) ∧ ∀ larger, limit ≤ larger →
          solve { s with maxIterations := larger } p = .error (.iterationLimit larger) := by
  have hbound : ∀ {r : Run ℚ} {status : Status}, Run.EndsAt s (.ofWellFormed p) r status →
      r.iterations ≤ 2 * (StandardForm.ofWellFormed p).numColumns.choose p.numConstraints
        + p.numConstraints := by
    intro r status hends
    have hle := hends.iterations_le hexact hp
    rwa [StandardForm.numBases_ofWellFormed, StandardForm.length_rows_ofWellFormed] at hle
  constructor
  · intro sol h
    obtain ⟨r, status, hends, -, rfl⟩ := (solve_eq_ok_iff hp).mp h
    rw [Run.iterations_toSolution]
    exact ⟨hbound hends, fun phase r q hr hq ↦ hends.iterations_eq hexact hp hr hq⟩
  · intro limit h hlimit
    obtain ⟨-, rfl, hnone⟩ := limit_eq_of_solve h
    -- Wherever the solve ended, it would do so within the limit it has met.
    have hnever : ∀ {r : Run ℚ} {status : Status}, ¬Run.EndsAt s (.ofWellFormed p) r status :=
      fun hends ↦ hnone _ ((solve_eq_ok_iff hp).mpr
        ⟨_, _, hends, (hbound hends).trans hlimit, rfl⟩)
    constructor
    · by_contra hcycle
      obtain ⟨r, status, hends⟩ := Run.exists_endsAt hexact hp hcycle (by
        rwa [StandardForm.numBases_ofWellFormed, StandardForm.length_rows_ofWellFormed])
      exact hnever hends
    · intro larger _
      refine (solve_eq_error_iff (s := { s with maxIterations := larger }) hp).mpr fun sol hsol ↦ ?_
      obtain ⟨r, status, hends, -⟩ := (solve_eq_ok_iff hp).mp hsol
      exact hnever (hends.of_limit s.maxIterations)

/-- Every basic solution on the way is the same, and after six pivots the basis is the first one. -/
def beale : Problem ℚ where
  sense := .maximize
  objective := [3 / 4, -150, 1 / 50, -6]
  constraints :=
    [⟨none, [1 / 4, -60, -1 / 25, 9], .le, 0⟩, ⟨none, [1 / 2, -90, -1 / 50, 3], .le, 0⟩,
      ⟨none, [0, 0, 1, 0], .le, 1⟩]
  variableNames := []

/-- Four pivots where at most one hundred and forty-four are possible, and a solve that is still
going after the seventy-three that are. -/
theorem iterations_le_or_cycles_beale : Settings.zeroTolerance.tolerance = 0
    ∧ pinned.WellFormed ∧ beale.WellFormed
    ∧ (∃ sol, solve .zeroTolerance pinned = .ok sol ∧ sol.iterations = 4
      ∧ sol.iterations ≤ 2 * Nat.choose 8 4 + 4)
    ∧ solve { Settings.zeroTolerance with maxIterations := 73 } beale = .error (.iterationLimit 73)
    ∧ Run.Cycles { Settings.zeroTolerance with maxIterations := 73 } (.ofWellFormed beale)
    ∧ ∀ larger, 73 ≤ larger → solve { Settings.zeroTolerance with maxIterations := larger } beale
      = .error (.iterationLimit larger) := by
  obtain ⟨sol, h, hfour⟩ := exists_solve_eq_of_map (s := .zeroTolerance) (p := pinned)
    (f := fun sol ↦ sol.iterations) (b := 4) (by decide +kernel)
  have hbound := ((iterations_le_or_cycles (s := .zeroTolerance) (p := pinned) rfl rfl).1 sol h).1
  have hp : beale.WellFormed := rfl
  have hstopped : solve { Settings.zeroTolerance with maxIterations := 73 } beale
      = .error (.iterationLimit 73) := by
    refine (solve_eq_error_iff (s := { Settings.zeroTolerance with maxIterations := 73 })
      hp).mpr fun sol hsol ↦ ?_
    have hnot : (solve { Settings.zeroTolerance with maxIterations := 73 } beale).isOk = false := by
      decide +kernel
    rw [hsol] at hnot
    cases hnot
  obtain ⟨hcycles, hlarger⟩ := (iterations_le_or_cycles
    (s := { Settings.zeroTolerance with maxIterations := 73 }) rfl hp).2 73 hstopped
    (by decide +kernel)
  exact ⟨rfl, rfl, hp, ⟨sol, h, hfour, hbound⟩, hstopped, hcycles, hlarger⟩

end LinearProgramming
