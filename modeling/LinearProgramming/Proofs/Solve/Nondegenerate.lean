import LinearProgramming.Proofs.Run.Path
import LinearProgramming.Proofs.Solve.Iterations

/-!
# Solves without degenerate pivots end

A pivot is degenerate if the constant of its row is zero: the basis changes and the basic solution
does not. Any other pivot that the rules choose raises the objective, because the entering column
earns something and grows by more than nothing. The objective row is told by the basis, so a phase
in which every pivot raises the objective comes by no basis twice.

The exchanges between the phases are degenerate by nature. They choose no column to enter, and what
is said here does not depend on them.

So with exact arithmetic and tolerance zero, a solve in which the rules choose no degenerate pivot
ends, and within a limit that can be told from the size of the problem. Whether it does choose one
can be seen in its trail, since a trail has all the tableaus that the solve goes through.
-/

namespace LinearProgramming

/-! ## The objective rises -/

namespace Tableau

variable {form : StandardForm ℚ} {t t' : Tableau ℚ} {i j : ℕ}

/-- **A pivot that is not degenerate** raises the objective. -/
theorem Represents.objectiveValue_lt_pivot (h : t.Represents form) (hij : t.Chooses form 0 i j)
    (hconst : 0 < t.constantOf (t.row i)) : t.objectiveValue < (t.pivot i j).objectiveValue := by
  obtain ⟨a, ha, hpos, -⟩ := exists_of_leavingRow_eq_some hij.2
  have hearns : 0 < -cellAt t.objective j := (enters_of_enteringColumn hij.1).earns
  have hgrows : 0 < t.constantOf (t.row i) / t.cell i j :=
    div_pos hconst (by rwa [cell, row_eq ha])
  rw [h.objectiveValue_pivot ha hpos.ne']
  linarith [mul_pos hearns hgrows]

theorem Similar.objectiveValue_eq (h : t.Similar t') : t.objectiveValue = t'.objectiveValue := by
  rw [objectiveValue, objectiveValue, constantOf, constantOf, h.numColumns_eq, h.objective_eq]

end Tableau

namespace Run

/-- That no pivot which the rules choose in a solve is made on a row whose constant is zero. -/
def Nondegenerate (s : Settings ℚ) (form : StandardForm ℚ) : Prop :=
  ∀ ⦃phase : Phase⦄ ⦃r : Run ℚ⦄ ⦃i j : ℕ⦄, Passes s form (.optimizing phase) r →
    r.iterations < s.maxIterations → r.tableau.Chooses form s.tolerance i j →
    0 < r.tableau.constantOf (r.tableau.row i)

variable {s : Settings ℚ} {p : Problem ℚ} {phase : Phase} {r q : Run ℚ}

section

variable (hexact : s.tolerance = 0) (hp : p.WellFormed)
  (hnondegenerate : Nondegenerate s (.ofWellFormed p))

include hexact hp hnondegenerate

/-- **The objective rises** from a run of a phase to every later one. -/
theorem Passes.eq_or_objectiveValue_lt (hr : Passes s (.ofWellFormed p) (.optimizing phase) r)
    (h : Leads s (.ofWellFormed p) (.optimizing phase, r) (.optimizing phase, q)) :
    r = q ∨ r.tableau.objectiveValue < q.tableau.objectiveValue := by
  generalize hend : (Stage.optimizing phase, q) = y at h
  induction h generalizing q with
  | refl =>
    cases hend
    exact .inl rfl
  | @tail x y hpath hstep ih =>
    subst hend
    cases hstep with
    | @pivot _ q i j hj hi hlimit =>
      have hq : Passes s (.ofWellFormed p) (.optimizing phase) q := hr.of_leads hpath
      have hrises : q.tableau.objectiveValue < (q.pivot s i j).tableau.objectiveValue := by
        rw [tableau_pivot]
        exact (hq.represents hexact hp).objectiveValue_lt_pivot (hexact ▸ ⟨hj, hi⟩)
          (hnondegenerate hq hlimit ⟨hj, hi⟩)
      rcases ih rfl with rfl | hlt
      · exact .inr hrises
      · exact .inr (hlt.trans hrises)
    | enterPhaseTwo =>
      -- Phase two is entered once, so no run of it comes before that.
      cases Leads.optimizing_two hpath

/-- **No cycles without degenerate pivots.** -/
theorem not_cycles : ¬Cycles s (.ofWellFormed p) := by
  rintro ⟨phase, r, q, hr, hq, hlt, hsimilar⟩
  have hpath := hr.leads_of_lt hq hlt
  rcases hr.eq_or_objectiveValue_lt hexact hp hnondegenerate hpath with rfl | hrises
  · exact lt_irrefl _ hlt
  · exact hrises.ne hsimilar.objectiveValue_eq

end

end Run

/-! ## What a trail shows -/

section

variable {α : Type} [Scalar α] {s : Settings α} {p : Problem α} {sol : Solution α} {stage : Stage}
  {r : Run α}

/-- **A trail has every tableau** of a solve that ends. -/
theorem exists_mem_trail_of_passes (h : solve s p = .ok sol)
    (hr : Run.Passes s (.ofWellFormed p) stage r) :
    ∃ step ∈ trail s (.ofWellFormed p), step.tableau = r.tableau := by
  have hp : p.WellFormed := (exists_finished_of_solve h).1
  obtain ⟨r', status, hends, hle, -⟩ := (solve_eq_ok_iff hp).mp h
  obtain ⟨last, hlast, hagrees'⟩ :=
    hends.of_trace true (Run.agrees_start s (.ofWellFormed p) true)
  obtain ⟨q, hq, hagrees⟩ := hr.of_trace true
  -- The traced solve ends at `last`, and what it has kept by `q` it has kept by then.
  have htrail : trail s (.ofWellFormed p) = last.steps.toList := by
    have hcomplete := Run.complete_eq_ok_iff.mpr ⟨last, hlast, hagrees'.iterations_eq ▸ hle, rfl⟩
    rw [trail, hcomplete]
    rfl
  obtain ⟨pivot, hpresent⟩ := (hq.replays rfl).last
  refine ⟨_, ?_, (Tableau.tableau_toStep q.tableau q.iterations pivot).trans
    hagrees.tableau_eq.symm⟩
  rw [htrail]
  exact (hq.concludes hlast).steps_isPrefix.subset (List.mem_of_getLast? hpresent)

end

variable {s : Settings ℚ} {p : Problem ℚ} {sol : Solution ℚ}

theorem Run.nondegenerate_of_trail (h : solve s p = .ok sol)
    (htrail : ∀ step ∈ trail s (.ofWellFormed p),
      ∀ j ∈ step.tableau.enteringColumn (.ofWellFormed p) s.tolerance,
        ∀ i ∈ step.tableau.leavingRow s.tolerance j,
          0 < step.tableau.constantOf (step.tableau.row i)) :
    Run.Nondegenerate s (.ofWellFormed p) := by
  rintro phase r i j hr - ⟨hj, hi⟩
  obtain ⟨step, hstep, heq⟩ := exists_mem_trail_of_passes h hr
  rw [← heq] at hj hi ⊢
  exact htrail step hstep j hj i hi

/-- **Without degenerate pivots a solve ends.** If none of the pivots that the rules choose is made
on a row whose constant is zero, a limit of two pivots for each choice of as many columns as there
are constraints, and one for each constraint, is enough. -/
theorem exists_solve_of_nondegenerate (hexact : s.tolerance = 0) (hp : p.WellFormed)
    (hlimit : 2 * (StandardForm.ofWellFormed p).numColumns.choose p.numConstraints
      + p.numConstraints ≤ s.maxIterations)
    (hnondegenerate : Run.Nondegenerate s (.ofWellFormed p)) :
    ∃ sol, solve s p = .ok sol
      ∧ sol.iterations ≤ 2 * (StandardForm.ofWellFormed p).numColumns.choose p.numConstraints
        + p.numConstraints := by
  have hsize : 2 * (StandardForm.ofWellFormed p).numBases
      + (StandardForm.ofWellFormed p).rows.length
      = 2 * (StandardForm.ofWellFormed p).numColumns.choose p.numConstraints
        + p.numConstraints := by
    rw [StandardForm.numBases_ofWellFormed, StandardForm.length_rows_ofWellFormed]
  obtain ⟨r, status, hends⟩ := Run.exists_endsAt hexact hp
    (Run.not_cycles hexact hp hnondegenerate) (hsize.le.trans hlimit)
  have hle := (hends.iterations_le hexact hp).trans hsize.le
  refine ⟨_, (solve_eq_ok_iff hp).mpr ⟨r, status, hends, hle.trans hlimit, rfl⟩, ?_⟩
  rwa [Run.iterations_toSolution]

/-- Every basic solution on the way to the optimum is another one. -/
def ample : Problem ℚ where
  sense := .maximize
  objective := [1, 2]
  constraints := [⟨none, [1, 1], .le, 4⟩, ⟨none, [1, 3], .le, 6⟩, ⟨none, [1, 0], .ge, 1⟩]
  variableNames := []

/-- Three pivots, within a limit of forty-three. -/
theorem exists_solve_of_nondegenerate_ample :
    Settings.zeroTolerance.tolerance = 0 ∧ ample.WellFormed
      ∧ 2 * (StandardForm.ofWellFormed ample).numColumns.choose ample.numConstraints
        + ample.numConstraints = 43
      ∧ Run.Nondegenerate { Settings.zeroTolerance with maxIterations := 43 } (.ofWellFormed ample)
      ∧ ∃ sol, solve { Settings.zeroTolerance with maxIterations := 43 } ample = .ok sol
        ∧ sol.iterations = 3 := by
  have hp : ample.WellFormed := rfl
  have hsize : 2 * (StandardForm.ofWellFormed ample).numColumns.choose ample.numConstraints
      + ample.numConstraints = 43 := by decide +kernel
  obtain ⟨sol, h, hthree⟩ := exists_solve_eq_of_map
    (s := { Settings.zeroTolerance with maxIterations := 43 }) (p := ample)
    (f := fun sol ↦ sol.iterations) (b := 3) (by decide +kernel)
  have hnondegenerate : Run.Nondegenerate { Settings.zeroTolerance with maxIterations := 43 }
      (.ofWellFormed ample) := Run.nondegenerate_of_trail h (by decide +kernel)
  obtain ⟨sol', h', -⟩ := exists_solve_of_nondegenerate
    (s := { Settings.zeroTolerance with maxIterations := 43 }) rfl hp hsize.le hnondegenerate
  obtain rfl : sol' = sol := Except.ok.inj (h'.symm.trans h)
  exact ⟨rfl, hp, hsize, hnondegenerate, sol', h', hthree⟩

end LinearProgramming
