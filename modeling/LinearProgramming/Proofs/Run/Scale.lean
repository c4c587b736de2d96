import LinearProgramming.Proofs.Run.Carried
import LinearProgramming.Proofs.Run.Trail
import LinearProgramming.Proofs.Tableau.Scale
import Mathlib.Data.List.ModifyLast

/-!
# Runs in another currency

A run for scaled costs goes through the same pivots as the run for the costs themselves. Each of its
tableaus is the other's with the objective row scaled, in phase two, or the same tableau, in phase
one, where the costs are not looked at. So scaling takes the runs of one solve to those of another
with the same choices, see `Run.Carries`.

The events are the same, number for number. The only one with an amount in it tells of the
artificial variables, at the end of phase one.
-/

namespace LinearProgramming

variable {k : ℚ}

/-- The step with the objective row that belongs to costs multiplied by `k`. -/
def Step.scaleObjective (k : ℚ) (step : Step ℚ) : Step ℚ :=
  { step with grid := step.grid.modifyLast (scaleRow (step.phase.factor k)) }

theorem Tableau.toStep_scaleObjective (k : ℚ) (t : Tableau ℚ) (iteration : ℕ)
    (pivot : Option (ℕ × ℕ)) :
    (t.scaleObjective k).toStep iteration pivot = (t.toStep iteration pivot).scaleObjective k := by
  rw [toStep, toStep, Step.scaleObjective, grid, grid, List.modifyLast_concat]
  rfl

namespace Run

variable {s : Settings ℚ} {form : StandardForm ℚ}

/-- The run with its tableau and its steps for costs multiplied by `k`. -/
def scaleObjective (k : ℚ) (r : Run ℚ) : Run ℚ :=
  { r with
    tableau := r.tableau.scaleObjective k
    steps := r.steps.map (Step.scaleObjective k) }

/-- What a part of a solve hands back, for costs multiplied by `k`. -/
def scaleOutcome {β : Type} (k : ℚ) (scale : β → β) : Except (Run ℚ) β → Except (Run ℚ) β
  | .error r => .error (r.scaleObjective k)
  | .ok b => .ok (scale b)

/-! ## Bookkeeping -/

theorem record_scaleObjective (k : ℚ) (s : Settings ℚ) (pivot : Option (ℕ × ℕ)) (r : Run ℚ) :
    (r.scaleObjective k).record s pivot = (r.record s pivot).scaleObjective k := by
  rw [record, record, scaleObjective, Tableau.toStep_scaleObjective]
  split_ifs
  · rw [scaleObjective, Array.map_push]
  · rfl

theorem start_scaleObjective (hk : 0 < k) (s : Settings ℚ) (form : StandardForm ℚ) :
    start s (form.scaleObjective k) = (start s form).scaleObjective k := by
  rw [start, start, ← record_scaleObjective, Tableau.initial_scaleObjective hk, scaleObjective,
    Array.map_empty]
  rfl

theorem pivot_scaleObjective (hk : 0 < k) (s : Settings ℚ) (i j : ℕ) (r : Run ℚ) :
    (r.scaleObjective k).pivot s i j = (r.pivot s i j).scaleObjective k := by
  rw [pivot, pivot, ← record_scaleObjective, scaleObjective, Tableau.pivot_scaleObjective hk]
  rfl

theorem enterPhaseTwo_scaleObjective (hk : 0 < k) (s : Settings ℚ) (form : StandardForm ℚ)
    (r : Run ℚ) : (r.scaleObjective k).enterPhaseTwo s (form.scaleObjective k)
      = (r.enterPhaseTwo s form).scaleObjective k := by
  have htableau : (r.tableau.scaleObjective k).installPhaseTwo (form.scaleObjective k)
      = (r.tableau.installPhaseTwo form).scaleObjective k :=
    Tableau.installPhaseTwo_scaleObjective hk form (r.tableau.scaleObjective k)
  rw [enterPhaseTwo, enterPhaseTwo, ← record_scaleObjective, scaleObjective, htableau]
  rfl

/-! ## Whole runs -/

/-- **Scaling takes solves to solves.** The objective is looked at in phase one only, where it is
the same. -/
theorem carries_scaleObjective (hk : 0 < k) (hexact : s.tolerance = 0) :
    Carries s s form (form.scaleObjective k) (scaleObjective k) where
  maxIterations_eq := rfl
  tolerance_eq := rfl
  isArtificial_eq := rfl
  iterations_eq _ := rfl
  phase_eq _ := rfl
  basis_eq _ := rfl
  enteringColumn_eq r := by
    rw [hexact]
    exact Tableau.enteringColumn_scaleObjective hk form r.tableau
  leavingRow_eq r j := Tableau.leavingRow_scaleObjective k s.tolerance r.tableau j
  replacementColumn_eq _ _ := Tableau.replacementColumn_scaleObjective ..
  objectiveValue_eq r hr := by
    rw [scaleObjective, Tableau.objectiveValue_scaleObjective, hr.reached.phase_eq]
    exact one_mul _
  start_eq := start_scaleObjective hk s form
  report_eq _ _ := rfl
  pivot_eq r i j := pivot_scaleObjective hk s i j r
  enterPhaseTwo_eq r := enterPhaseTwo_scaleObjective hk s form r

/-- **A solve for scaled costs is the solve for the costs, scaled.** -/
theorem complete_scaleObjective (hk : 0 < k) (hexact : s.tolerance = 0) :
    complete s (form.scaleObjective k)
      = scaleOutcome k (Prod.map (scaleObjective k) id) (complete s form) := by
  rw [(carries_scaleObjective hk hexact).complete_eq]
  rcases complete s form with _ | _ <;> rfl

end Run

/-- **The trail of a solve** for scaled costs goes through the same pivots and bases. -/
theorem trail_scaleObjective (hk : 0 < k) {s : Settings ℚ} (hexact : s.tolerance = 0)
    (form : StandardForm ℚ) :
    trail s (form.scaleObjective k) = (trail s form).map (Step.scaleObjective k) := by
  rw [trail, Run.complete_scaleObjective (s := { s with trace := true }) hk hexact, trail]
  cases Run.complete { s with trace := true } form with
  | error r => exact Array.toList_map
  | ok result => exact Array.toList_map

end LinearProgramming
