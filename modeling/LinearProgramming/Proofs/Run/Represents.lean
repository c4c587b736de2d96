import LinearProgramming.Proofs.Run.Reached
import LinearProgramming.Proofs.StandardForm.Points
import LinearProgramming.Proofs.Tableau.BasicSolution
import LinearProgramming.Proofs.Tableau.PivotRule
import LinearProgramming.Proofs.Tableau.Shape

/-!
# Every tableau states the same problem

Whatever a solve does to a tableau, its rows keep the solutions of the standard form, its basic
columns stay unit vectors, and its objective row is worth the objective of the phase at every one
of these solutions. This holds for every tolerance that is not negative, since a pivot element only
has to be different from zero for it, and every rule that chooses one asks for more than the
tolerance.
-/

open Finset

namespace LinearProgramming

namespace Tableau

/-- What a tableau says about the standard form it came from. -/
structure Represents (form : StandardForm ℚ) (t : Tableau ℚ) : Prop where
  canonical : t.Canonical form.numColumns
  /-- The rows have the solutions of the standard form. -/
  holds_iff : ∀ u, t.Holds u ↔ form.Holds u
  /-- The objective row is worth the objective of the phase. -/
  worth : ∀ u, t.Holds u → residual t.numColumns t.objective u = form.worth t.phase u

section

variable {form : StandardForm ℚ} {t : Tableau ℚ}

theorem Represents.numColumns_eq (h : t.Represents form) : t.numColumns = form.numColumns :=
  Tableau.numColumns_eq h.canonical.length_objective

/-- The constant of the objective row is the worth of the basic solution. -/
theorem Represents.objectiveValue_eq (h : t.Represents form) :
    t.objectiveValue = form.worth t.phase t.basicSolution := by
  rw [← residual_objective_basicSolution h.canonical,
    h.worth _ (holds_basicSolution h.canonical)]

/-- **A pivot keeps what a tableau says.** -/
theorem Represents.pivot (h : t.Represents form) {i j : ℕ} {a : TableauRow ℚ}
    (ha : t.rows[i]? = some a) (hj : j < t.numColumns) (hne : cellAt a.cells j ≠ 0) :
    (t.pivot i j).Represents form where
  canonical := canonical_pivot h.canonical ha (h.numColumns_eq ▸ hj) hne
  holds_iff u := (holds_pivot_iff h.canonical ha hne).trans (h.holds_iff u)
  worth u hu := by
    have hold : t.Holds u := (holds_pivot_iff h.canonical ha hne).mp hu
    rw [numColumns_pivot h.canonical ha, residual_objective_pivot h.canonical ha hne hold,
      h.worth u hold, phase_pivot]

theorem holds_iff_of_length {n : ℕ} (h : t.objective.length = n + 1) {u : ℕ → ℚ} :
    t.Holds u ↔ ∀ row ∈ t.rows, residual n row.cells u = 0 := by
  rw [Holds, numColumns_eq h]

/-- The tableau with the objective of a phase written over its own. -/
def install (form : StandardForm ℚ) (phase : Phase) (t : Tableau ℚ) : Tableau ℚ :=
  { t.withCosts (form.costs phase) with phase := phase }

theorem installPhaseTwo_eq : t.installPhaseTwo form = t.install form .two := rfl

/-- Installing an objective needs nothing of the objective row that was there. -/
theorem represents_install {phase : Phase} (hrows : CanonicalRows form.numColumns t.rows)
    (hcosts : (form.costs phase).length = form.numColumns)
    (hsol : ∀ u, (∀ row ∈ t.rows, residual form.numColumns row.cells u = 0) ↔ form.Holds u) :
    (t.install form phase).Represents form := by
  have hcanonical : (t.install form phase).Canonical form.numColumns :=
    ⟨hrows, (canonical_withCosts hrows hcosts).length_objective,
      (canonical_withCosts hrows hcosts).objective_basic⟩
  refine ⟨hcanonical, fun u ↦ ?_, fun u hu ↦ ?_⟩
  · rw [holds_iff_of_length hcanonical.length_objective]
    exact hsol u
  · rw [holds_iff_of_length hcanonical.length_objective] at hu
    rw [Tableau.numColumns_eq hcanonical.length_objective]
    exact residual_withCosts hrows hcosts hu

end

/-! ## The first tableau -/

theorem initial_eq (form : StandardForm ℚ) : Tableau.initial form
    = if form.hasArtificial then (laidOut form).install form .one
      else (laidOut form).install form .two := rfl

theorem rows_initial (form : StandardForm ℚ) :
    (Tableau.initial form).rows = (laidOut form).rows := by
  rw [initial_eq]
  split_ifs <;> rfl

section

variable {p : Problem ℚ} {i c : ℕ} {a : TableauRow ℚ}

theorem exists_of_getElem?_laidOut (ha : (laidOut (.ofWellFormed p)).rows[i]? = some a) :
    ∃ row placed, p.normalRows[i]? = some row
      ∧ (StandardForm.ofWellFormed p).rows[i]? = some placed
      ∧ placed.rhs = row.rhs ∧ a.cells = placed.coefficients ++ [placed.rhs]
      ∧ a.basic = if row.relation.hasArtificial then p.artificialOf i else p.auxiliaryOf i := by
  rw [laidOut, List.getElem?_map, Option.map_eq_some_iff] at ha
  obtain ⟨placed, hplaced, rfl⟩ := ha
  obtain ⟨row, hi, rfl⟩ := StandardForm.exists_of_getElem?_rows hplaced
  exact ⟨row, _, hi, hplaced, rfl, rfl, rfl⟩

theorem basic_laidOut_lt (ha : (laidOut (.ofWellFormed p)).rows[i]? = some a) :
    p.numVariables ≤ a.basic ∧ a.basic < (StandardForm.ofWellFormed p).numColumns := by
  rw [laidOut, List.getElem?_map, Option.map_eq_some_iff] at ha
  obtain ⟨placed, hplaced, rfl⟩ := ha
  exact StandardForm.basic_placed_lt hplaced

/-- **The columns that are basic to begin with form an identity.** -/
theorem canonicalRows_laidOut (hp : p.WellFormed) :
    CanonicalRows (StandardForm.ofWellFormed p).numColumns (laidOut (.ofWellFormed p)).rows where
  length_cells ha := by
    obtain ⟨row, placed, hi, hplaced, -, hcells, -⟩ := exists_of_getElem?_laidOut ha
    rw [hcells, List.length_append, StandardForm.length_placed hp hi hplaced,
      List.length_singleton]
  basic_lt ha := (basic_laidOut_lt ha).2
  unit ha hb := by
    have hlt := (basic_laidOut_lt ha).2
    rw [laidOut, List.getElem?_map, Option.map_eq_some_iff] at ha hb
    obtain ⟨placed, hplaced, rfl⟩ := ha
    obtain ⟨placed', hplaced', rfl⟩ := hb
    rw [cellAt_append_left (by
      rwa [StandardForm.length_of_mem_rows hp (List.mem_of_getElem? hplaced')]),
      StandardForm.cellAt_placed_basic hp hplaced hplaced']

theorem holds_laidOut_iff (hp : p.WellFormed) (u : ℕ → ℚ) :
    (∀ row ∈ (laidOut (.ofWellFormed p)).rows,
        residual (StandardForm.ofWellFormed p).numColumns row.cells u = 0)
      ↔ (StandardForm.ofWellFormed p).Holds u := by
  rw [laidOut, List.forall_mem_map, StandardForm.Holds]
  refine forall₂_congr fun placed hplaced ↦ ?_
  have hlen : placed.coefficients.length = (StandardForm.ofWellFormed p).numColumns :=
    StandardForm.length_of_mem_rows hp hplaced
  rw [residual_eq_zero_iff, cellAt_append_singleton hlen]
  refine Eq.congr_left (sum_congr rfl fun c hc ↦ ?_)
  rw [cellAt_append_left (by rw [hlen]; exact mem_range.mp hc)]

theorem length_costs (p : Problem ℚ) (phase : Phase) :
    ((StandardForm.ofWellFormed p).costs phase).length
      = (StandardForm.ofWellFormed p).numColumns := by
  cases phase with
  | one =>
    rw [StandardForm.costs, phaseOneCosts, List.length_map, List.length_range]
  | two =>
    rw [StandardForm.costs, phaseTwoCosts, List.length_append, List.length_replicate,
      StandardForm.length_objective, StandardForm.numStructural_ofWellFormed,
      Nat.add_sub_cancel' (StandardForm.numVariables_le_numColumns p)]

theorem represents_initial (hp : p.WellFormed) :
    (Tableau.initial (.ofWellFormed p)).Represents (.ofWellFormed p) := by
  rw [initial_eq]
  split_ifs
  · exact represents_install (canonicalRows_laidOut hp) (length_costs p .one) (holds_laidOut_iff hp)
  · exact represents_install (canonicalRows_laidOut hp) (length_costs p .two) (holds_laidOut_iff hp)

theorem Represents.installPhaseTwo {t : Tableau ℚ} (h : t.Represents (.ofWellFormed p)) :
    (t.installPhaseTwo (.ofWellFormed p)).Represents (.ofWellFormed p) := by
  rw [installPhaseTwo_eq]
  refine represents_install h.canonical.rows (length_costs p .two) fun u ↦ ?_
  rw [← h.holds_iff u, holds_iff_of_length h.canonical.length_objective]

end

end Tableau

/-! ## Along a solve -/

variable {p : Problem ℚ} {ε : ℚ} {stage : Stage} {t : Tableau ℚ}

/-- **Every tableau a solve passes through states the same problem**, with the objective of its
phase, whatever the tolerance. -/
theorem Reached.represents (hp : p.WellFormed) (hε : 0 ≤ ε)
    (h : Reached (.ofWellFormed p) ε stage t) : t.Represents (.ofWellFormed p) := by
  induction h with
  | initial => exact Tableau.represents_initial hp
  | pivot _ hj hi ih =>
    obtain ⟨a, ha, hcell, -⟩ := Tableau.exists_of_leavingRow_eq_some hi
    exact ih.pivot ha (Tableau.enters_of_enteringColumn hj).lt_numColumns (hε.trans_lt hcell).ne'
  | turn _ _ _ ih => exact ih
  | pass _ _ ih => exact ih
  | exchange _ hart hj ih =>
    obtain ⟨a, ha, -⟩ := Tableau.exists_row_of_basis_any hart
    obtain ⟨hlt, -, hcell⟩ := Tableau.replacementColumn_eq_some hj
    rw [Tableau.cell, Tableau.row_eq ha] at hcell
    exact ih.pivot ha hlt (abs_pos.mp (hε.trans_lt hcell))
  | install _ ih => exact ih.installPhaseTwo

end LinearProgramming
