import LinearProgramming.Proofs.Run.Monotone
import LinearProgramming.Proofs.Solve.Exact

/-!
# What every tableau of a solve says

Two statements about all tableaus of a trail. With any tolerance that is not negative each of them
states the problem: its rows have the solutions of the standard form, and on these its objective row
is worth the objective of its phase. With tolerance zero each of them is feasible besides, and the
objective rises from one to the next by exactly what the pivot between them earns.

Whether a pivot is chosen by the rules or exchanges an artificial variable shows in the tableau it
is made on. Exchanges come at the end of phase one, and by then the objective of phase one is
zero.
-/

open Finset

namespace LinearProgramming

variable {s : Settings ℚ} {p : Problem ℚ}

namespace Tableau.Represents

variable {form : StandardForm ℚ} {t : Tableau ℚ}

theorem sum_cell_iff (h : t.Represents form) (u : ℕ → ℚ) :
    (∀ i < t.numRows, ∑ j ∈ range form.numColumns, t.cell i j * u j = t.constantOf (t.row i))
      ↔ form.Holds u := by
  have hrow : ∀ {i : ℕ} {a : TableauRow ℚ}, t.rows[i]? = some a →
      (∑ j ∈ range form.numColumns, t.cell i j * u j = t.constantOf (t.row i)
        ↔ residual t.numColumns a.cells u = 0) := by
    intro i a ha
    rw [residual_eq_zero_iff, constantOf_row ha h, h.numColumns_eq]
    simp only [cell, row_eq ha]
  rw [← h.holds_iff, holds_iff_getElem?]
  constructor
  · intro hu i a ha
    exact (hrow ha).mp (hu i (List.getElem?_eq_some_iff.mp ha).1)
  · intro hu i hi
    have ha : t.rows[i]? = some t.rows[i] := List.getElem?_eq_getElem hi
    exact (hrow ha).mpr (hu i _ ha)

theorem objectiveValue_sub_sum (h : t.Represents form) {u : ℕ → ℚ} (hu : form.Holds u) :
    t.objectiveValue - ∑ j ∈ range form.numColumns, cellAt t.objective j * u j
      = form.worth t.phase u := by
  rw [← h.worth u ((h.holds_iff u).mpr hu), residual, objectiveValue, constantOf, h.numColumns_eq]

end Tableau.Represents

theorem Reached.numRows_eq_numConstraints {ε : ℚ} {stage : Stage} {t : Tableau ℚ}
    (h : Reached (.ofWellFormed p) ε stage t) : t.numRows = p.numConstraints := by
  rw [h.numRows_eq, StandardForm.length_rows_ofWellFormed]

/-- **Every tableau states the problem.** Whatever the tolerance and wherever the solve ends, an
assignment of the columns solves the constraint rows of a step exactly where it solves the standard
form, and the objective row is then worth the objective of the phase. -/
theorem holds_iff_of_mem_trail (hε : 0 ≤ s.tolerance) (hp : p.WellFormed) {step : Step ℚ}
    (hstep : step ∈ trail s (.ofWellFormed p)) (u : ℕ → ℚ) :
    ((∀ i < p.numConstraints, ∑ j ∈ range (StandardForm.ofWellFormed p).numColumns,
          step.tableau.cell i j * u j = step.tableau.constantOf (step.tableau.row i))
        ↔ (StandardForm.ofWellFormed p).Holds u)
      ∧ ((StandardForm.ofWellFormed p).Holds u →
        step.tableau.objectiveValue - ∑ j ∈ range (StandardForm.ofWellFormed p).numColumns,
            cellAt step.tableau.objective j * u j
          = match step.phase with
            | .one => -∑ j ∈ range (StandardForm.ofWellFormed p).numColumns
                with (StandardForm.ofWellFormed p).isArtificial j, u j
            | .two => ∑ j ∈ range p.numVariables,
                cellAt (StandardForm.ofWellFormed p).objective j * u j) := by
  obtain ⟨t, stage, iteration, pivot, hr, rfl⟩ := exists_reached_of_mem_trail hstep
  have hrep := hr.represents hp hε
  rw [Tableau.tableau_toStep, ← hr.numRows_eq_numConstraints]
  refine ⟨hrep.sum_cell_iff u, fun hu ↦ ?_⟩
  rw [hrep.objectiveValue_sub_sum hu, Tableau.toStep]
  cases t.phase with
  | one => rw [StandardForm.worth_one, sum_filter]
  | two => exact StandardForm.worth_two_eq_sum p u

/-- The standard tolerance, and at most two pivots. -/
def Settings.twoPivots : Settings ℚ := { Settings.standard with maxIterations := 2 }

theorem holds_iff_of_mem_trail_blend : 0 ≤ Settings.twoPivots.tolerance ∧ blend.WellFormed
    ∧ (solve .twoPivots blend).isOk = false
    ∧ ∃ step ∈ trail .twoPivots (.ofWellFormed blend), step.iteration = 2 ∧ step.phase = .one
      ∧ ∀ u, ((∀ i < blend.numConstraints, ∑ j ∈ range (StandardForm.ofWellFormed blend).numColumns,
            step.tableau.cell i j * u j = step.tableau.constantOf (step.tableau.row i))
          ↔ (StandardForm.ofWellFormed blend).Holds u)
        ∧ ((StandardForm.ofWellFormed blend).Holds u →
          step.tableau.objectiveValue - ∑ j ∈ range (StandardForm.ofWellFormed blend).numColumns,
              cellAt step.tableau.objective j * u j
            = -∑ j ∈ range (StandardForm.ofWellFormed blend).numColumns
                with (StandardForm.ofWellFormed blend).isArtificial j, u j) := by
  have hε : 0 ≤ Settings.twoPivots.tolerance := by decide +kernel
  have hp : blend.WellFormed := rfl
  have hlast : (trail .twoPivots (.ofWellFormed blend))[2]?.map
      (fun step ↦ (step.iteration, step.phase)) = some (2, .one) := by decide +kernel
  obtain ⟨step, hstep, hlast⟩ := Option.map_eq_some_iff.mp hlast
  obtain ⟨hiteration, hphase⟩ := Prod.mk.inj hlast
  refine ⟨hε, hp, by decide +kernel, step, List.mem_of_getElem? hstep, hiteration, hphase,
    fun u ↦ ?_⟩
  have hstates := holds_iff_of_mem_trail hε hp (List.mem_of_getElem? hstep) u
  rwa [hphase] at hstates

/-- **Every tableau is feasible and none falls back.** With tolerance zero no constraint row of a
step has a negative constant, and the objective of phase one is never above zero. A pivot keeps the
phase and does not lower the objective: one that the rules choose adds what the entering column
earns per unit, times the ratio of the leaving row, and an exchange adds nothing. -/
theorem nonneg_and_mono_of_trail (hexact : s.tolerance = 0) (hp : p.WellFormed) :
    (∀ step ∈ trail s (.ofWellFormed p),
      (∀ i < p.numConstraints, 0 ≤ step.tableau.constantOf (step.tableau.row i))
        ∧ (step.phase = .one → step.tableau.objectiveValue ≤ 0))
    ∧ ∀ {k : ℕ} {a b : Step ℚ} {i j : ℕ}, (trail s (.ofWellFormed p))[k]? = some a →
      (trail s (.ofWellFormed p))[k + 1]? = some b → b.pivot = some (i, j) →
      b.tableau = a.tableau.pivot i j ∧ b.phase = a.phase
        ∧ a.tableau.objectiveValue ≤ b.tableau.objectiveValue
        ∧ (a.tableau.Chooses (.ofWellFormed p) 0 i j
            ∧ b.tableau.objectiveValue = a.tableau.objectiveValue
              + -cellAt a.tableau.objective j
                * (a.tableau.constantOf (a.tableau.row i) / a.tableau.cell i j)
          ∨ a.tableau.Exchanges (.ofWellFormed p) 0 i j
            ∧ b.tableau.objectiveValue = a.tableau.objectiveValue) := by
  constructor
  · intro step hstep
    obtain ⟨t, stage, iteration, pivot, hr, rfl⟩ := exists_reached_of_mem_trail hstep
    rw [hexact] at hr
    have hrep := hr.represents hp le_rfl
    have hnonneg := (hr.exact hp).nonnegative
    rw [Tableau.tableau_toStep, ← hr.numRows_eq_numConstraints]
    refine ⟨fun i hi ↦ ?_, fun hphase ↦ hrep.objectiveValue_nonpos hnonneg hphase⟩
    have ha : t.rows[i]? = some t.rows[i] := List.getElem?_eq_getElem hi
    rw [Tableau.constantOf_row ha hrep]
    exact hnonneg ha
  · intro k a b i j ha hb hpivot
    have hmove := move_of_getElem?_trail ha hb
    rw [hexact, hpivot] at hmove
    obtain ⟨heq, hle, hrise⟩ := hmove.objectiveValue hp
    exact ⟨heq, congrArg Tableau.phase heq, hle, hrise⟩

/-- Two equalities that say the same, with right-hand side zero. At the end of phase one both
artificial variables are still basic, one is exchanged on a negative cell and the other stays. -/
def pinned : Problem ℚ where
  sense := .maximize
  objective := [1, 2, 3]
  constraints :=
    [⟨none, [-1, -1, 0], .eq, 0⟩, ⟨none, [-2, -2, 0], .eq, 0⟩, ⟨none, [0, 0, 1], .ge, 1⟩,
      ⟨none, [1, 0, 1], .le, 3⟩]
  variableNames := []

theorem nonneg_and_mono_of_trail_pinned : Settings.zeroTolerance.tolerance = 0
    ∧ pinned.WellFormed ∧ ∃ a b c : Step ℚ,
      (trail .zeroTolerance (.ofWellFormed pinned))[0]? = some a
      ∧ (trail .zeroTolerance (.ofWellFormed pinned))[1]? = some b
      ∧ (trail .zeroTolerance (.ofWellFormed pinned))[2]? = some c
      ∧ b.tableau = a.tableau.pivot 2 2
      ∧ a.tableau.objectiveValue = -1 ∧ b.tableau.objectiveValue = 0
      ∧ c.tableau = b.tableau.pivot 0 0 ∧ b.tableau.cell 0 0 = -1
      ∧ c.tableau.objectiveValue = b.tableau.objectiveValue
      ∧ (∀ i < pinned.numConstraints, 0 ≤ c.tableau.constantOf (c.tableau.row i))
      ∧ c.tableau.objectiveValue ≤ 0 := by
  have hp : pinned.WellFormed := rfl
  have ha : (trail .zeroTolerance (.ofWellFormed pinned))[0]?.map (fun step : Step ℚ ↦
      (step.tableau.objectiveValue, cellAt step.tableau.objective 2, step.tableau.cell 2 2,
        step.tableau.constantOf (step.tableau.row 2))) = some (-1, -1, 1, 1) := by decide +kernel
  have hb : (trail .zeroTolerance (.ofWellFormed pinned))[1]?.map (fun step : Step ℚ ↦
      (step.pivot, step.tableau.enteringColumn (.ofWellFormed pinned) 0, step.tableau.cell 0 0))
      = some (some (2, 2), none, -1) := by decide +kernel
  have hc : (trail .zeroTolerance (.ofWellFormed pinned))[2]?.map (fun step : Step ℚ ↦
      (step.pivot, step.phase)) = some (some (0, 0), .one) := by decide +kernel
  obtain ⟨a, ha, hcells⟩ := Option.map_eq_some_iff.mp ha
  obtain ⟨b, hb, hfirst⟩ := Option.map_eq_some_iff.mp hb
  obtain ⟨c, hc, hsecond⟩ := Option.map_eq_some_iff.mp hc
  simp only [Prod.mk.injEq] at hcells hfirst hsecond
  obtain ⟨hvalue, hcost, hcell, hconstant⟩ := hcells
  obtain ⟨hchosen, hnone, hnegative⟩ := hfirst
  obtain ⟨hexchanged, hphase⟩ := hsecond
  have htrail := nonneg_and_mono_of_trail (s := .zeroTolerance) rfl hp
  obtain ⟨hnonneg, hnonpos⟩ := htrail.1 c (List.mem_of_getElem? hc)
  obtain ⟨hpivot, -, -, hrise⟩ := htrail.2 ha hb hchosen
  obtain ⟨hpivot', -, -, hstay⟩ := htrail.2 hb hc hexchanged
  -- The first pivot is not an exchange, since the artificial variables sum to one before it, and
  -- the second one is not chosen, since no column enters.
  have hzero : b.tableau.objectiveValue = 0 := by
    rcases hrise with ⟨-, hrise⟩ | ⟨hexchange, -⟩
    · rw [hrise, hvalue, hcost, hconstant, hcell]
      norm_num
    · have hone := hexchange.objectiveValue_eq
      rw [hvalue] at hone
      norm_num at hone
  have hkeep : c.tableau.objectiveValue = b.tableau.objectiveValue := by
    rcases hstay with ⟨hchooses, -⟩ | ⟨-, hkeep⟩
    · have henters := hchooses.1
      rw [hnone] at henters
      cases henters
    · exact hkeep
  exact ⟨rfl, hp, a, b, c, ha, hb, hc, hpivot, hvalue, hzero, hpivot', hnegative, hkeep, hnonneg,
    hnonpos hphase⟩

end LinearProgramming
