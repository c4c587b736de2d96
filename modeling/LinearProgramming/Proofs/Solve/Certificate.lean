import Mathlib.Algebra.Order.Field.Rat
import LinearProgramming.Proofs.Problem.Certificate
import LinearProgramming.Proofs.Run.Prices
import LinearProgramming.Proofs.Solve.Exact

/-!
# The analysis of an optimum is a certificate

The shadow prices and reduced costs that come with an optimum prove it: the right-hand sides are
worth the optimum at the prices, and no variable earns more than it takes at them. All of this is
read off the objective row of the last tableau, which is a combination of the rows of the standard
form with the prices as multipliers.

The standard form is that of the turned constraints with maximized costs. A turned constraint has
all its numbers turned and so has its price, which makes no difference to a product of the two, and
a minimization turns every price and the objective with them.
-/

open Finset

namespace LinearProgramming

/-! ## Turned constraints -/

/-- A number of a constraint as it was before the constraint was turned, if it was. -/
def turnBack (negated : Bool) (x : ℚ) : ℚ := if negated then -x else x

theorem turnBack_mul_turnBack (negated : Bool) (x y : ℚ) :
    turnBack negated x * turnBack negated y = x * y := by
  cases negated with
  | false => rfl
  | true => exact neg_mul_neg x y

namespace Constraint

variable (con : Constraint ℚ)

theorem turnBack_rhs : turnBack con.normalize.negated con.normalize.rhs = con.rhs := by
  rw [normalize]
  split_ifs
  · exact neg_neg _
  · rfl

theorem turnBack_coefficients (j : ℕ) :
    turnBack con.normalize.negated (cellAt con.normalize.coefficients j)
      = cellAt con.coefficients j := by
  rw [normalize]
  split_ifs
  · rw [cellAt_map (f := fun x ↦ -x) neg_zero]
    exact neg_neg _
  · rfl

theorem allowsPrice_normalize (y : ℚ) : con.normalize.relation.AllowsPrice y
    ↔ con.relation.AllowsPrice (turnBack con.normalize.negated y) := by
  rw [normalize]
  split_ifs
  · exact con.relation.allowsPrice_flipped y
  · rfl

end Constraint

namespace StandardForm

variable {p : Problem ℚ}

private theorem map_rows_eq {f : StandardRow ℚ → ℚ} {g : Constraint ℚ → ℚ}
    (h : ∀ (i : ℕ), ∀ con ∈ p.constraints, f (con.normalize.place p.numVariables
      (p.numAuxiliary + p.numArtificial) (p.auxiliaryOf i) (p.artificialOf i)) = g con) :
    (ofWellFormed p).rows.map f = p.constraints.map g := by
  refine List.ext_getElem? fun i ↦ ?_
  rw [List.getElem?_map, getElem?_rows_ofWellFormed, Problem.normalRows, List.getElem?_map,
    List.getElem?_map, Option.map_map, Option.map_map]
  exact Option.map_congr fun con hcon ↦ h i con (List.mem_of_getElem? hcon)

theorem map_turnBack_rhs (p : Problem ℚ) :
    (ofWellFormed p).rows.map (fun row ↦ turnBack row.negated row.rhs)
      = p.constraints.map (·.rhs) :=
  map_rows_eq fun _ con _ ↦ con.turnBack_rhs

theorem map_turnBack_coefficients (hp : p.WellFormed) {j : ℕ} (hj : j < p.numVariables) :
    (ofWellFormed p).rows.map (fun row ↦ turnBack row.negated (cellAt row.coefficients j))
      = p.constraints.map fun con ↦ cellAt con.coefficients j := by
  refine map_rows_eq fun i con hcon ↦ ?_
  have hlen : j < con.normalize.coefficients.length := by
    rwa [con.length_normalize, hp.length_coefficients con hcon]
  rw [NormalRow.place, cellAt_append_left hlen, con.turnBack_coefficients]

end StandardForm

/-! ## The last tableau -/

namespace Tableau

variable {p : Problem ℚ} {t : Tableau ℚ}

/-- The shadow price of a constraint, before the sense of the problem is taken into account. -/
def turnedPrice (t : Tableau ℚ) (row : StandardRow ℚ) : ℚ := turnBack row.negated (t.rowPrice row)

theorem shadowPrice_zero (p : Problem ℚ) (t : Tableau ℚ) (row : StandardRow ℚ) :
    t.shadowPrice (.ofWellFormed p) 0 row = p.sense.signed (t.turnedPrice row) := by
  rw [shadowPrice, StandardForm.ite_signFlipped, Scalar.snap_zero]
  rfl

/-- What a variable costs in excess of what it earns is written in the objective row, also where it
is not read off, in the column of a basic variable. -/
theorem Canonical.reducedCost_zero {n : ℕ} (h : t.Canonical n) (j : ℕ) :
    t.reducedCost 0 j = cellAt t.objective j := by
  rw [reducedCost, Scalar.snap_zero]
  split_ifs with hbasis
  · obtain ⟨i, a, ha, rfl⟩ := mem_basis_iff.mp (List.contains_iff_mem.mp hbasis)
    exact (h.objective_basic ha).symm
  · rfl

private theorem map_mapIdx_eq_map_range {β γ δ : Type} {f : ℕ → β → γ} {g : γ → δ} {h : ℕ → δ}
    (hf : ∀ i a, g (f i a) = h i) (l : List β) :
    (l.mapIdx f).map g = (List.range l.length).map h := by
  refine List.ext_getElem? fun i ↦ ?_
  rw [List.getElem?_map, List.getElem?_mapIdx, Option.map_map, List.getElem?_map]
  by_cases hi : i < l.length
  · rw [List.getElem?_range hi, List.getElem?_eq_getElem hi]
    exact congrArg some (hf i l[i])
  · rw [List.getElem?_eq_none (not_lt.mp hi),
      List.getElem?_eq_none (by rw [List.length_range]; exact not_lt.mp hi)]
    rfl

theorem constraints_shadowPrices (p : Problem ℚ) (t : Tableau ℚ) :
    (t.analysis p (.ofWellFormed p) 0).shadowPrices.map (·.constraint)
      = (List.range p.numConstraints).map p.constraintName := by
  rw [analysis, map_mapIdx_eq_map_range, StandardForm.length_rows_ofWellFormed]
  exact fun _ _ ↦ rfl

theorem variableNames_reducedCosts (p : Problem ℚ) (t : Tableau ℚ) :
    (t.analysis p (.ofWellFormed p) 0).reducedCosts.map (·.variableName)
      = (List.range p.numVariables).map p.variableName := by
  rw [analysis, map_mapIdx_eq_map_range, length_structuralValues]
  · rfl
  · exact fun _ _ ↦ rfl

theorem shadowPrices_analysis (p : Problem ℚ) (t : Tableau ℚ) :
    (t.analysis p (.ofWellFormed p) 0).shadowPrices.map (·.value)
      = (StandardForm.ofWellFormed p).rows.map fun row ↦ p.sense.signed (t.turnedPrice row) := by
  refine List.ext_getElem? fun i ↦ ?_
  rw [analysis, List.getElem?_map, List.getElem?_mapIdx, Option.map_map, List.getElem?_map]
  exact Option.map_congr fun row _ ↦ t.shadowPrice_zero p row

theorem Canonical.reducedCosts_analysis {n : ℕ} (h : t.Canonical n) :
    (t.analysis p (.ofWellFormed p) 0).reducedCosts.map (·.cost)
      = (List.range p.numVariables).map (cellAt t.objective) := by
  rw [analysis, map_mapIdx_eq_map_range, length_structuralValues]
  · rfl
  · exact fun j _ ↦ h.reducedCost_zero j

theorem Represents.allowsPrice_rowPrice (h : t.Represents (.ofWellFormed p))
    (hstop : t.enteringColumn (.ofWellFormed p) 0 = none) {i : ℕ} {con : Constraint ℚ}
    (hi : p.constraints[i]? = some con) {row : StandardRow ℚ}
    (hrow : (StandardForm.ofWellFormed p).rows[i]? = some row) :
    con.normalize.relation.AllowsPrice (t.rowPrice row) := by
  obtain ⟨normal, hnormal, hplaced⟩ := StandardForm.exists_of_getElem?_rows hrow
  obtain rfl : con.normalize = normal := by
    rw [Problem.normalRows, List.getElem?_map, hi] at hnormal
    exact Option.some_inj.mp hnormal
  have hcell : con.normalize.relation.hasAuxiliary = true →
      0 ≤ cellAt t.objective (p.auxiliaryOf i) := fun haux ↦
    h.cellAt_objective_nonneg hstop (StandardForm.auxiliaryOf_lt_numColumns hnormal haux)
      (StandardForm.isArtificial_auxiliaryOf hnormal haux)
  rw [rowPrice_place t hplaced]
  cases hrel : con.normalize.relation with
  | le => exact hcell (by rw [hrel]; rfl)
  | ge => exact neg_nonpos.mpr (hcell (by rw [hrel]; rfl))
  | eq => trivial

private theorem dot_shadowPrices {f : StandardRow ℚ → ℚ} {g : Constraint ℚ → ℚ}
    (h : (StandardForm.ofWellFormed p).rows.map (fun row ↦ turnBack row.negated (f row))
      = p.constraints.map g) (t : Tableau ℚ) :
    Scalar.dot ((t.analysis p (.ofWellFormed p) 0).shadowPrices.map (·.value)) (p.constraints.map g)
      = p.sense.signed
        ((StandardForm.ofWellFormed p).rows.map fun row ↦ t.rowPrice row * f row).sum := by
  rw [shadowPrices_analysis, ← h, Scalar.dot_map_map, Sense.signed_eq, ← List.sum_map_mul_left]
  refine congrArg List.sum (List.map_congr_left fun row _ ↦ ?_)
  rw [Sense.signed_eq, turnedPrice, mul_assoc, turnBack_mul_turnBack]

/-- **The analysis of a last tableau is a certificate** for the value of its objective. -/
theorem Represents.isDualCertificate (hp : p.WellFormed) (h : t.Represents (.ofWellFormed p))
    (hphase : t.phase = .two) (hstop : t.enteringColumn (.ofWellFormed p) 0 = none) :
    p.IsDualCertificate ((t.analysis p (.ofWellFormed p) 0).shadowPrices.map (·.value))
      ((t.analysis p (.ofWellFormed p) 0).reducedCosts.map (·.cost))
      (p.sense.signed t.objectiveValue) where
  length_prices := by
    rw [shadowPrices_analysis, List.length_map, StandardForm.length_rows_ofWellFormed]
  length_costs := by
    rw [h.canonical.reducedCosts_analysis, List.length_map, List.length_range]
  value := by
    rw [dot_shadowPrices (StandardForm.map_turnBack_rhs p), h.objectiveValue_eq_sum hp hphase]
  cost j hj := by
    rw [h.canonical.reducedCosts_analysis, cellAt_map_of_getElem? (List.getElem?_range hj),
      dot_shadowPrices (StandardForm.map_turnBack_coefficients hp hj), Sense.signed_sub,
      Sense.signed_signed, h.cellAt_objective_eq_sum hp hphase hj, StandardForm.cellAt_objective]
  cost_nonneg j hj := by
    rw [h.canonical.reducedCosts_analysis, cellAt_map_of_getElem? (List.getElem?_range hj)]
    exact h.cellAt_objective_nonneg hstop (hj.trans_le (StandardForm.numVariables_le_numColumns p))
      (StandardForm.isArtificial_structural hj)
  price i con hi := by
    have hrow := StandardForm.getElem?_rows_ofWellFormed p i
    rw [Problem.normalRows, List.getElem?_map, hi, Option.map_some, Option.map_some] at hrow
    rw [shadowPrices_analysis, cellAt_map_of_getElem? hrow, Sense.signed_signed, turnedPrice]
    exact (con.allowsPrice_normalize _).mp (h.allowsPrice_rowPrice hstop hi hrow)

end Tableau

/-! ## The analysis of an optimum -/

section

variable {s : Settings ℚ} {p : Problem ℚ} {sol : Solution ℚ}

/-- **An optimum comes with its certificate.** The analysis has a shadow price for each constraint
and a reduced cost for each variable, in order, and they certify the reported objective. -/
theorem isDualCertificate_of_solve (hexact : s.tolerance = 0) (h : solve s p = .ok sol)
    (hstatus : sol.status = .optimal) :
    ∃ analysis z, sol.analysis = some analysis ∧ sol.objectiveValue = some z
      ∧ analysis.shadowPrices.map (·.constraint)
        = (List.range p.numConstraints).map p.constraintName
      ∧ analysis.reducedCosts.map (·.variableName)
        = (List.range p.numVariables).map p.variableName
      ∧ p.IsDualCertificate (analysis.shadowPrices.map (·.value))
        (analysis.reducedCosts.map (·.cost)) z := by
  obtain ⟨hp, r, -, hsol, hfin⟩ := exists_finished_of_solve h
  rw [hstatus, hexact] at hfin
  rw [hstatus] at hsol
  cases hfin with
  | optimal hr hstop =>
    refine ⟨_, p.sense.signed r.tableau.objectiveValue, ?_, ?_,
      Tableau.constraints_shadowPrices p _, Tableau.variableNames_reducedCosts p _,
      (hr.represents hp le_rfl).isDualCertificate hp hr.phase_eq hstop⟩
    · rw [hsol, Run.analysis_toSolution, hexact]
    · rw [hsol, Run.objectiveValue_toSolution, StandardForm.ite_signFlipped]

theorem isDualCertificate_of_solve_blend : Settings.zeroTolerance.tolerance = 0 ∧ ∃ sol,
    solve .zeroTolerance blend = .ok sol ∧ sol.status = .optimal
      ∧ sol.objectiveValue = some (-1)
      ∧ blend.IsDualCertificate [1 / 2, 0, 0, 3 / 2, 0] [0, 5 / 2, 0] (-1) := by
  obtain ⟨sol, h, hsol⟩ := exists_solve_eq_of_map (s := .zeroTolerance) (p := blend)
    (f := fun sol ↦ (sol.status, sol.objectiveValue, sol.analysis.map fun analysis ↦
      (analysis.shadowPrices.map (·.value), analysis.reducedCosts.map (·.cost))))
    (b := (.optimal, some (-1), some ([1 / 2, 0, 0, 3 / 2, 0], [0, 5 / 2, 0])))
    (by decide +kernel)
  simp only [Prod.mk.injEq] at hsol
  obtain ⟨hstatus, hvalue, hanalysis⟩ := hsol
  obtain ⟨analysis, z, ha, hz, -, -, hcert⟩ := isDualCertificate_of_solve rfl h hstatus
  rw [ha, Option.map_some, Option.some_inj, Prod.mk.injEq] at hanalysis
  obtain rfl := Option.some_inj.mp (hz.symm.trans hvalue)
  rw [hanalysis.1, hanalysis.2] at hcert
  exact ⟨rfl, sol, h, hstatus, hvalue, hcert⟩

end

end LinearProgramming
