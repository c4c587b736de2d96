import LinearProgramming.Proofs.Run.Reached

/-!
# Solves carried over to solves

Two solves run side by side if some function of runs takes the start of the first one to the start
of the second one and is passed by every step, and if the choices at a run and at the one that the
function makes of it are the same. `Run.Carries` says this of one run and one step at a time. From
it every stage of the second solve hands back what the function makes of the run that the same stage
of the first one hands back, be it a run that goes on or one that the pivot limit has stopped.

A function that leaves the tableaus alone leaves the choices alone. Such is the one that drops the
tableaus a run has kept, so whether a trace is kept makes no difference to what is told on the way.
-/

namespace LinearProgramming

namespace Run

variable {α : Type} [Scalar α] {s s' : Settings α} {form form' : StandardForm α}
  {f : Run α → Run α} {r : Run α}

/-- What a function of runs makes of that which a part of a solve hands back. -/
def carryOutcome {β : Type} (f : Run α → Run α) (g : β → β) : Except (Run α) β → Except (Run α) β
  | .error r => .error (f r)
  | .ok b => .ok (g b)

/-- That a function takes the runs of one solve to those of another, at which the same is chosen. -/
structure Carries (s s' : Settings α) (form form' : StandardForm α) (f : Run α → Run α) : Prop where
  maxIterations_eq : s'.maxIterations = s.maxIterations
  tolerance_eq : s'.tolerance = s.tolerance
  isArtificial_eq : form'.isArtificial = form.isArtificial
  iterations_eq : ∀ r : Run α, (f r).iterations = r.iterations
  phase_eq : ∀ r : Run α, (f r).tableau.phase = r.tableau.phase
  basis_eq : ∀ r : Run α, (f r).tableau.basis = r.tableau.basis
  enteringColumn_eq : ∀ r : Run α, (f r).tableau.enteringColumn form' s.tolerance
    = r.tableau.enteringColumn form s.tolerance
  leavingRow_eq : ∀ (r : Run α) (j : ℕ), (f r).tableau.leavingRow s.tolerance j
    = r.tableau.leavingRow s.tolerance j
  replacementColumn_eq : ∀ (r : Run α) (i : ℕ),
    (f r).tableau.replacementColumn form' s.tolerance i
      = r.tableau.replacementColumn form s.tolerance i
  /-- The objective is looked at when phase one is over, and nowhere else. -/
  objectiveValue_eq : ∀ r : Run α, Passes s form (.optimizing .one) r →
    (f r).tableau.objectiveValue = r.tableau.objectiveValue
  start_eq : start s' form' = f (start s form)
  report_eq : ∀ (r : Run α) (event : Event α), (f r).report event = f (r.report event)
  pivot_eq : ∀ (r : Run α) (i j : ℕ), (f r).pivot s' i j = f (r.pivot s i j)
  enterPhaseTwo_eq : ∀ r : Run α, (f r).enterPhaseTwo s' form' = f (r.enterPhaseTwo s form)

namespace Carries

theorem numRows_eq (h : Carries s s' form form' f) (r : Run α) :
    (f r).tableau.numRows = r.tableau.numRows := by
  have hlength : ∀ t : Tableau α, t.numRows = t.basis.length := fun t ↦ (List.length_map _).symm
  rw [hlength, hlength, h.basis_eq]

/-! ## Stages -/

theorem optimizeWithin_eq (h : Carries s s' form form' f) (budget : ℕ) (r : Run α) :
    optimizeWithin s' form' budget (f r)
      = carryOutcome f (Prod.map f id) (optimizeWithin s form budget r) := by
  fun_induction optimizeWithin s form budget r with
  | case1 budget r hj =>
    rw [optimizeWithin.eq_def, h.tolerance_eq, h.enteringColumn_eq, hj]
    rfl
  | case2 budget r j hj hi =>
    rw [optimizeWithin.eq_def, h.tolerance_eq, h.enteringColumn_eq, hj]
    simp only [h.leavingRow_eq, hi]
    rfl
  | case3 r j hj i hi =>
    rw [optimizeWithin, h.tolerance_eq, h.enteringColumn_eq, hj]
    simp only [h.leavingRow_eq, hi]
    rfl
  | case4 r j hj i hi budget ih =>
    rw [optimizeWithin, h.tolerance_eq, h.enteringColumn_eq, hj]
    simp only [h.leavingRow_eq, hi]
    rw [h.pivot_eq, ih]

theorem optimize_eq (h : Carries s s' form form' f) (r : Run α) :
    (f r).optimize s' form' = carryOutcome f (Prod.map f id) (r.optimize s form) := by
  rw [optimize, optimize, h.maxIterations_eq, h.iterations_eq]
  exact h.optimizeWithin_eq _ r

theorem driveOutOf_eq (h : Carries s s' form form' f) (rows : List ℕ) (r : Run α) :
    driveOutOf s' form' rows (f r) = carryOutcome f f (driveOutOf s form rows r) := by
  induction rows generalizing r with
  | nil => rfl
  | cons i rows ih =>
    rw [driveOutOf, driveOutOf, h.basis_eq, h.isArtificial_eq, h.tolerance_eq,
      h.replacementColumn_eq, h.iterations_eq, h.maxIterations_eq]
    by_cases hany : r.tableau.basis[i]?.any form.isArtificial = true
    · rw [if_pos hany, if_pos hany]
      cases r.tableau.replacementColumn form s.tolerance i with
      | none =>
        simp only
        rw [h.report_eq, ih]
      | some j =>
        by_cases hlimit : r.iterations < s.maxIterations
        · simp only [if_pos hlimit]
          rw [h.pivot_eq, ih]
        · simp only [if_neg hlimit]
          rfl
    · rw [if_neg hany, if_neg hany, ih]

theorem driveOut_eq (h : Carries s s' form form' f) (r : Run α) :
    (f r).driveOut s' form' = carryOutcome f f (r.driveOut s form) := by
  rw [driveOut, driveOut, h.numRows_eq]
  exact h.driveOutOf_eq _ r

theorem phaseTwo_eq (h : Carries s s' form form' f) (r : Run α) :
    (f r).phaseTwo s' form' = carryOutcome f (Prod.map f id) (r.phaseTwo s form) := by
  rw [phaseTwo, phaseTwo, h.optimize_eq]
  rcases r.optimize s form with _ | ⟨r', _ | _⟩ <;> rfl

theorem phaseOne_eq (h : Carries s s' form form' f) (hr : Passes s form (.optimizing .one) r) :
    (f r).phaseOne s' form' = carryOutcome f (Prod.map f id) (r.phaseOne s form) := by
  have hopt := passes_of_optimizeWithin hr (Nat.le_refl _)
  rw [phaseOne, phaseOne, h.optimize_eq, optimize]
  rcases hrun : optimizeWithin s form (s.maxIterations - r.iterations) r with _ | ⟨r₁, _ | j⟩
  · rfl
  · rw [hrun] at hopt
    simp only [carryOutcome, Prod.map_apply, id_eq, h.tolerance_eq, h.objectiveValue_eq r₁ hopt.1]
    by_cases hlarge : s.tolerance < Scalar.abs r₁.tableau.objectiveValue
    · simp only [if_pos hlarge]
      rw [h.report_eq]
      rfl
    · simp only [if_neg hlarge]
      rw [h.driveOut_eq]
      rcases r₁.driveOut s form with _ | r₂
      · rfl
      · simp only [carryOutcome]
        rw [h.enterPhaseTwo_eq, h.phaseTwo_eq]
        rfl
  · simp only [carryOutcome, Prod.map_apply, id_eq]
    rw [h.report_eq]

/-- **The second solve is what the function makes of the first one.** -/
theorem complete_eq (h : Carries s s' form form' f) :
    complete s' form' = carryOutcome f (Prod.map f id) (complete s form) := by
  have hpasses : Passes s form (.optimizing (start s form).tableau.phase) (start s form) := by
    rw [tableau_start]
    exact .start
  have hphases : (f (start s form)).phases s' form'
      = carryOutcome f (Prod.map f id) ((start s form).phases s form) := by
    rw [phases, phases, h.phase_eq]
    cases hphase : (start s form).tableau.phase with
    | one => exact h.phaseOne_eq (hphase ▸ hpasses)
    | two => exact h.phaseTwo_eq _
  rw [complete, complete, h.start_eq, hphases]
  rcases (start s form).phases s form with _ | ⟨r, status⟩
  · rfl
  · simp only [carryOutcome, Prod.map_apply, id_eq]
    rw [h.report_eq, h.iterations_eq]

end Carries

/-! ## Traces -/

/-- The run without the tableaus that it has kept. -/
def untraced (r : Run α) : Run α := { r with steps := #[] }

omit [Scalar α] in
theorem untraced_record (s : Settings α) (pivot : Option (ℕ × ℕ)) (r : Run α) :
    (r.record s pivot).untraced = r.untraced := by
  rw [record]
  split_ifs <;> rfl

/-- **A solve with a trace** is the one without, but for the tableaus that it keeps. -/
theorem carries_untraced (s : Settings α) (form : StandardForm α) :
    Carries s { s with trace := false } form form untraced where
  maxIterations_eq := rfl
  tolerance_eq := rfl
  isArtificial_eq := rfl
  iterations_eq _ := rfl
  phase_eq _ := rfl
  basis_eq _ := rfl
  enteringColumn_eq _ := rfl
  leavingRow_eq _ _ := rfl
  replacementColumn_eq _ _ := rfl
  objectiveValue_eq _ _ := rfl
  start_eq := by
    rw [start, start, untraced_record]
    rfl
  report_eq _ _ := rfl
  pivot_eq _ _ _ := by
    rw [pivot, pivot, untraced_record]
    rfl
  enterPhaseTwo_eq _ := by
    rw [enterPhaseTwo, enterPhaseTwo, untraced_record]
    rfl

theorem untraced_complete (s : Settings α) (form : StandardForm α) (trace : Bool) :
    carryOutcome untraced (Prod.map untraced id) (complete { s with trace := trace } form)
      = carryOutcome untraced (Prod.map untraced id) (complete s form) := by
  rw [← (carries_untraced s form).complete_eq]
  exact ((carries_untraced { s with trace := trace } form).complete_eq).symm

end Run

end LinearProgramming
