import LinearProgramming.Proofs.Run.Scale
import LinearProgramming.Proofs.Solve.Replay

/-!
# Solves in another currency

To multiply all costs of a problem by a positive number is to count its objective in another
currency. An exact solve takes the same pivots then, reports the same events, and fails where and as
it did. The optimum is at the same values with the same constraints binding, and every amount of
money that is read off the last objective row is multiplied: the objective, the shadow prices and
the reduced costs.

That the tolerance is zero is needed. Any other tolerance is an amount of money where costs are
compared with it.
-/

namespace LinearProgramming

/-- The problem with all its costs multiplied by `k`. -/
def Problem.scaleObjective (k : ℚ) (p : Problem ℚ) : Problem ℚ :=
  { p with objective := p.objective.map (k * ·) }

/-! ## What is handed back -/

/-- That an analysis says the same as another with all prices and costs multiplied by `k`. -/
structure Analysis.Scaled (k : ℚ) (a b : Analysis ℚ) : Prop where
  bindingConstraints_eq : b.bindingConstraints = a.bindingConstraints
  shadowPrices_eq : b.shadowPrices
    = a.shadowPrices.map fun price ↦ { price with value := k * price.value }
  reducedCosts_eq : b.reducedCosts
    = a.reducedCosts.map fun cost ↦ { cost with cost := k * cost.cost }

/-- That a solution is another one with its objective, prices and costs multiplied by `k`. Its trace
goes through the same pivots and bases, and through the same rows but for the objective row of phase
two. -/
structure Solution.Scaled (k : ℚ) (sol sol' : Solution ℚ) : Prop where
  status_eq : sol'.status = sol.status
  values_eq : sol'.values = sol.values
  iterations_eq : sol'.iterations = sol.iterations
  objectiveValue_eq : sol'.objectiveValue = sol.objectiveValue.map (k * ·)
  analysis : Option.Rel (Analysis.Scaled k) sol.analysis sol'.analysis
  columnLabels_eq : sol'.trace.map (·.columnLabels) = sol.trace.map (·.columnLabels)
  steps_eq : sol'.trace.map (·.steps)
    = sol.trace.map (·.steps.map (Step.scaleObjective k))

/-! ## Standard forms -/

section Problems

variable (k : ℚ) (p : Problem ℚ)

theorem Problem.numVariables_scaleObjective :
    (p.scaleObjective k).numVariables = p.numVariables := List.length_map _

theorem Problem.validate_scaleObjective : (p.scaleObjective k).validate = p.validate := by
  have hfinite : ∀ costs : List ℚ, costs.any (!Scalar.isFinite ·) = false :=
    fun costs ↦ List.any_eq_false.mpr fun _ _ ↦ Bool.false_ne_true
  rw [validate, numVariables_scaleObjective, hfinite, validate, hfinite]
  rfl

theorem StandardForm.ofWellFormed_scaleObjective :
    ofWellFormed (p.scaleObjective k) = (ofWellFormed p).scaleObjective k := by
  have hobjective : (ofWellFormed (p.scaleObjective k)).objective
      = scaleRow k (ofWellFormed p).objective := by
    obtain ⟨sense, objective, constraints, variableNames⟩ := p
    cases sense with
    | maximize => rfl
    | minimize =>
      change (objective.map (k * ·)).map (-·) = (objective.map (-·)).map (k * ·)
      rw [List.map_map, List.map_map]
      exact List.map_congr_left fun x _ ↦ (mul_neg k x).symm
  simp only [ofWellFormed, Problem.numVariables_scaleObjective, scaleObjective] at hobjective ⊢
  rw [hobjective]
  rfl

theorem StandardForm.ofProblem_scaleObjective :
    ofProblem (p.scaleObjective k) = (ofProblem p).map (·.scaleObjective k) := by
  rw [ofProblem, Problem.validate_scaleObjective, ofWellFormed_scaleObjective, ofProblem]
  cases p.validate <;> rfl

end Problems

/-! ## Reading off -/

namespace Tableau

variable {k : ℚ} {form : StandardForm ℚ} {t : Tableau ℚ}

theorem structuralValues_scaleObjective (k ε : ℚ) (form : StandardForm ℚ) (t : Tableau ℚ) :
    (t.scaleObjective k).structuralValues (form.scaleObjective k) ε
      = t.structuralValues form ε := by
  unfold structuralValues constantOf
  rw [numColumns_scaleObjective]
  rfl

theorem isBinding_scaleObjective (k ε : ℚ) (t : Tableau ℚ) (row : StandardRow ℚ) :
    (t.scaleObjective k).isBinding ε row = t.isBinding ε row := by
  unfold isBinding constantOf
  rw [numColumns_scaleObjective]
  rfl

theorem rowPrice_scaleObjective (k : ℚ) (t : Tableau ℚ) (row : StandardRow ℚ) :
    (t.scaleObjective k).rowPrice row = t.phase.factor k * t.rowPrice row := by
  rw [rowPrice, rowPrice]
  split
  · exact cellAt_objective_scaleObjective k t _
  · rw [cellAt_objective_scaleObjective, mul_neg]
  · exact cellAt_objective_scaleObjective k t _
  · exact (mul_zero _).symm

variable (hphase : t.phase = .two)

include hphase

theorem shadowPrice_scaleObjective (k : ℚ) (form : StandardForm ℚ) (row : StandardRow ℚ) :
    (t.scaleObjective k).shadowPrice (form.scaleObjective k) 0 row
      = k * t.shadowPrice form 0 row := by
  have hflipped : (form.scaleObjective k).signFlipped = form.signFlipped := rfl
  rw [shadowPrice, shadowPrice, rowPrice_scaleObjective, hphase, Phase.factor, hflipped,
    Scalar.snap_zero, Scalar.snap_zero]
  cases row.negated <;> cases form.signFlipped <;> simp

theorem reducedCost_scaleObjective (k : ℚ) (j : ℕ) :
    (t.scaleObjective k).reducedCost 0 j = k * t.reducedCost 0 j := by
  have hbasis : (t.scaleObjective k).basis = t.basis := rfl
  rw [reducedCost, reducedCost, hbasis, cellAt_objective_scaleObjective, hphase, Phase.factor,
    Scalar.snap_zero, Scalar.snap_zero]
  split_ifs
  · exact (mul_zero k).symm
  · rfl

/-- **An analysis in another currency.** -/
theorem scaled_analysis (k : ℚ) (p : Problem ℚ) (form : StandardForm ℚ) :
    (t.analysis p form 0).Scaled k
      ((t.scaleObjective k).analysis (p.scaleObjective k) (form.scaleObjective k) 0) where
  bindingConstraints_eq := by
    simp only [analysis, isBinding_scaleObjective]
    rfl
  shadowPrices_eq := by
    simp only [analysis, shadowPrice_scaleObjective hphase]
    rw [List.mapIdx_eq_iff]
    intro i
    rw [List.getElem?_map, List.getElem?_mapIdx, Option.map_map]
    rfl
  reducedCosts_eq := by
    simp only [analysis, reducedCost_scaleObjective hphase, structuralValues_scaleObjective]
    rw [List.mapIdx_eq_iff]
    intro j
    rw [List.getElem?_map, List.getElem?_mapIdx, Option.map_map]
    rfl

end Tableau

namespace Run

variable {k : ℚ} {s : Settings ℚ} {form : StandardForm ℚ} {status : Status} {r : Run ℚ}

/-- **A solution in another currency** is read off where the run has ended. -/
theorem scaled_toSolution (hexact : s.tolerance = 0)
    (hfin : Finished form s.tolerance status r.tableau) (p : Problem ℚ) :
    (r.toSolution s p form status).Scaled k ((r.scaleObjective k).toSolution s
      (p.scaleObjective k) (form.scaleObjective k) status) := by
  have hsteps : (r.scaleObjective k).steps.toList = r.steps.toList.map (Step.scaleObjective k) :=
    Array.toList_map
  unfold toSolution
  rw [hexact, hsteps]
  cases status with
  | optimal =>
    have hphase : r.tableau.phase = .two := hfin.phase_eq
    have hvalues : some ((r.scaleObjective k).tableau.structuralValues (form.scaleObjective k) 0)
        = some (r.tableau.structuralValues form 0) :=
      congrArg some (Tableau.structuralValues_scaleObjective ..)
    have hanalysis := Tableau.scaled_analysis hphase k p form
    have hobjective : (r.scaleObjective k).tableau.objectiveValue
        = k * r.tableau.objectiveValue := by
      rw [scaleObjective, Tableau.objectiveValue_scaleObjective, hphase, Phase.factor]
    have hreported : some (if (form.scaleObjective k).signFlipped
          then -(r.scaleObjective k).tableau.objectiveValue
          else (r.scaleObjective k).tableau.objectiveValue)
        = (some (if form.signFlipped then -r.tableau.objectiveValue
          else r.tableau.objectiveValue)).map (k * ·) := by
      rw [hobjective, show (form.scaleObjective k).signFlipped = form.signFlipped from rfl]
      split_ifs
      · rw [Option.map_some, mul_neg]
      · rfl
    split_ifs
    · exact ⟨rfl, hvalues, rfl, hreported, .some hanalysis, rfl, rfl⟩
    · exact ⟨rfl, hvalues, rfl, hreported, .some hanalysis, rfl, rfl⟩
  | infeasible | unbounded =>
    split_ifs
    · exact ⟨rfl, rfl, rfl, rfl, .none, rfl, rfl⟩
    · exact ⟨rfl, rfl, rfl, rfl, .none, rfl, rfl⟩

end Run

/-! ## Solves -/

section

variable {k : ℚ} {s : Settings ℚ}

/-- **The currency of the objective does not matter.** With all costs multiplied by `k` an exact
solve reports the same events, goes through the same pivots and bases, also where it is stopped at
the limit, and fails where and as it did. Otherwise the solution is the same but for the objective,
the shadow prices and the reduced costs, which are multiplied by `k`. -/
theorem solve_scaleObjective (hk : 0 < k) (hexact : s.tolerance = 0) (p : Problem ℚ) :
    (solveWithEvents s (p.scaleObjective k)).1 = (solveWithEvents s p).1
      ∧ (trail s (.ofWellFormed (p.scaleObjective k))).map
          (fun step ↦ (step.phase, step.iteration, step.pivot, step.basis))
        = (trail s (.ofWellFormed p)).map
          (fun step ↦ (step.phase, step.iteration, step.pivot, step.basis))
      ∧ (∀ fault, solve s (p.scaleObjective k) = .error fault ↔ solve s p = .error fault)
      ∧ ∀ sol, solve s p = .ok sol →
        ∃ sol', solve s (p.scaleObjective k) = .ok sol' ∧ sol.Scaled k sol' := by
  have htrail := trail_scaleObjective hk hexact (.ofWellFormed p)
  rw [StandardForm.ofWellFormed_scaleObjective, htrail, List.map_map, solve, solve, solveWithEvents,
    solveWithEvents, StandardForm.ofProblem_scaleObjective]
  cases StandardForm.ofProblem p with
  | error fault => exact ⟨rfl, rfl, fun _ ↦ Iff.rfl, fun sol hsol ↦ by cases hsol⟩
  | ok form =>
    simp only [Except.map]
    rw [Run.complete_scaleObjective hk hexact]
    cases hrun : Run.complete s form with
    | error r => exact ⟨rfl, rfl, fun _ ↦ Iff.rfl, fun sol hsol ↦ by cases hsol⟩
    | ok result =>
      obtain ⟨r, status⟩ := result
      refine ⟨rfl, rfl, fun fault ↦ ?_, fun sol hsol ↦ ?_⟩
      · constructor <;> intro h <;> cases h
      · cases hsol
        exact ⟨_, rfl, Run.scaled_toSolution hexact (Run.finished_of_complete hrun) p⟩

/-- The optimum of `blend` is worth half as much again. It takes three pivots, and two of them are
too few as they were before. -/
theorem solve_scaleObjective_blend : (0 : ℚ) < 3 / 2 ∧ Settings.zeroTolerance.tolerance = 0
    ∧ (∃ sol sol', solve .zeroTolerance blend = .ok sol
      ∧ solve .zeroTolerance (blend.scaleObjective (3 / 2)) = .ok sol' ∧ sol.Scaled (3 / 2) sol'
      ∧ sol'.values = some [1, 0, 3] ∧ sol.objectiveValue = some (-1)
      ∧ sol'.objectiveValue = some (-3 / 2))
    ∧ solve { Settings.zeroTolerance with maxIterations := 2 } (blend.scaleObjective (3 / 2))
      = .error (.iterationLimit 2) := by
  have hk : (0 : ℚ) < 3 / 2 := by norm_num
  obtain ⟨sol, h, hsol⟩ := exists_solve_eq_of_map (s := .zeroTolerance) (p := blend)
    (f := fun sol ↦ (sol.values, sol.objectiveValue, sol.iterations))
    (b := (some [1, 0, 3], some (-1), 3)) (by decide +kernel)
  simp only [Prod.mk.injEq] at hsol
  obtain ⟨hvalues, hvalue, hthree⟩ := hsol
  obtain ⟨sol', h', hscaled⟩ := (solve_scaleObjective hk rfl blend).2.2.2 sol h
  refine ⟨hk, rfl, ⟨sol, sol', h, h', hscaled, ?_, hvalue, ?_⟩, ?_⟩
  · rw [hscaled.values_eq, hvalues]
  · rw [hscaled.objectiveValue_eq, hvalue, Option.map_some]
    norm_num
  · have hlimit : solve { Settings.zeroTolerance with maxIterations := 2 } blend
        = .error (.iterationLimit 2) := by
      refine solve_limit_eq_error (exists_finished_of_solve h).1 (fun other hother ↦ ?_) (by decide)
      obtain rfl : sol = other := Except.ok.inj (h.symm.trans hother)
      omega
    exact ((solve_scaleObjective hk rfl blend).2.2.1 _).mpr hlimit

end

end LinearProgramming
