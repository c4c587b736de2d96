import LinearProgramming.Proofs.Run.Units
import LinearProgramming.Proofs.Scalar.Double
import LinearProgramming.Proofs.Solve.Trail

/-!
# The basis of every tableau of a solve

In any arithmetic with exact units, and double precision is one, the basic columns of every tableau
that a solve comes to are exact unit vectors. They pick out one row each, without rounding residue
and however long the run has been, and the rules that choose columns never choose one of them.

The one thing that can break this is a number that is not finite any more. So the statement is about
a tableau before which all cells have been finite.
-/

namespace LinearProgramming

variable {α : Type} [Scalar α]

theorem Tableau.Units.exists_cell? {n : ℕ} {t : Tableau α} (h : t.Units n) {i c k : ℕ}
    (hc : t.basis[i]? = some c) (hk : k ≤ t.numRows) :
    ∃ x, t.cell? k c = some x ∧ x == if k = i then 1 else 0 := by
  rw [basis, List.getElem?_map, Option.map_eq_some_iff] at hc
  obtain ⟨a, ha, rfl⟩ := hc
  have hlt := h.rows.basic_lt ha
  have hi : i < t.numRows := (List.getElem?_eq_some_iff.mp ha).1
  rcases hk.lt_or_eq with hk | rfl
  · have hb : t.rows[k]? = some t.rows[k] := List.getElem?_eq_getElem hk
    have hlen := h.rows.length_cells hb
    refine ⟨cellAt t.rows[k].cells a.basic, ?_, h.rows.unit ha hb⟩
    rw [cell?, getElem?_grid hb, cellAt_eq_getElem (by omega)]
    exact List.getElem?_eq_getElem _
  · have hlen := h.length_objective
    refine ⟨cellAt t.objective a.basic, ?_, ?_⟩
    · rw [cell?, getElem?_grid_numRows, cellAt_eq_getElem (by omega)]
      exact List.getElem?_eq_getElem _
    · rw [if_neg hi.ne']
      exact h.objective_basic ha

theorem Tableau.Units.nodup_basis {n : ℕ} {t : Tableau α} (h : t.Units n) : t.basis.Nodup := by
  rw [List.nodup_iff_injective_getElem]
  rintro ⟨i, hi⟩ ⟨k, hk⟩ heq
  simp only [basis, List.getElem_map] at heq
  rw [basis, List.length_map] at hi hk
  exact Fin.ext (h.rows.injective (List.getElem?_eq_getElem hi) (List.getElem?_eq_getElem hk) heq)

/-- **The basis is exact.** As long as all cells before it have been finite, a tableau of a solve
has one basic column for each constraint, all of them different, and each is exactly one in its own
row and exactly zero in the other rows and in the objective row. So none of them is chosen to enter,
and none that is basic in another row replaces an artificial variable. -/
theorem unit_basis_of_trail [Scalar.ExactUnits α] {s : Settings α} {p : Problem α}
    (hε : 0 ≤ s.tolerance) (hp : p.WellFormed) {k : ℕ} {step : Step α}
    (hstep : (trail s (.ofWellFormed p))[k]? = some step)
    (hfinite : ∀ l < k, ∀ earlier ∈ (trail s (.ofWellFormed p))[l]?,
      ∀ cells ∈ earlier.grid, ∀ x ∈ cells, Scalar.isFinite x = true) :
    step.basis.length = p.numConstraints ∧ step.basis.Nodup
      ∧ (∀ c ∈ step.basis, c < step.tableau.numColumns)
      ∧ (∀ i c, step.basis[i]? = some c → ∀ row ≤ p.numConstraints,
        ∃ x, step.tableau.cell? row c = some x ∧ x == if row = i then 1 else 0)
      ∧ (∀ j, step.tableau.enteringColumn (.ofWellFormed p) s.tolerance = some j →
        j ∉ step.basis)
      ∧ ∀ i j, step.tableau.replacementColumn (.ofWellFormed p) s.tolerance i = some j →
        ∀ row ≠ i, step.basis[row]? ≠ some j := by
  have hunits := units_of_getElem?_trail hp hε hstep fun l hl earlier hearlier ↦ by
    obtain ⟨t, stage, iteration, pivot, -, rfl⟩ :=
      exists_reached_of_mem_trail (List.mem_of_getElem? hearlier)
    rw [Tableau.tableau_toStep]
    exact hfinite l hl _ hearlier
  obtain ⟨t, stage, iteration, pivot, hr, rfl⟩ :=
    exists_reached_of_mem_trail (List.mem_of_getElem? hstep)
  rw [Tableau.tableau_toStep] at hunits ⊢
  have hrows : t.numRows = p.numConstraints := by
    rw [hr.numRows_eq, StandardForm.length_rows_ofWellFormed]
  have hcolumns : t.numColumns = (StandardForm.ofWellFormed p).numColumns := by
    rw [Tableau.numColumns, hunits.length_objective, Nat.add_sub_cancel]
  refine ⟨?_, hunits.nodup_basis, fun c hc ↦ ?_, fun i c hc row hrow ↦ ?_,
    fun j ↦ hunits.notMem_basis_of_enteringColumn hε,
    fun i j hj row ↦ hunits.getElem?_basis_ne_of_replacementColumn hε hj⟩
  · rw [← hrows]
    exact List.length_map ..
  · obtain ⟨a, ha, rfl⟩ := List.mem_map.mp hc
    obtain ⟨i, hi⟩ := List.mem_iff_getElem?.mp ha
    rw [hcolumns]
    exact hunits.rows.basic_lt hi
  · exact hunits.exists_cell? hc (hrows ▸ hrow)

/-- Tenths, none of which double precision has exactly: a bound from below, and one from above. -/
def tenths : Problem Float where
  sense := .maximize
  objective := [0.1, 0.3]
  constraints := [⟨none, [0.7, 0.1], .ge, 0.2⟩, ⟨none, [0.3, 0.9], .le, 1.1⟩]
  variableNames := []

/-- After a pivot of phase one, the turn, and a pivot of phase two. -/
theorem unit_basis_of_trail_tenths : (0 : Float) ≤ Settings.standard.tolerance ∧ tenths.WellFormed
    ∧ (∀ l < 3, ∀ earlier ∈ (trail .standard (.ofWellFormed tenths))[l]?,
      ∀ cells ∈ earlier.grid, ∀ x ∈ cells, Scalar.isFinite x = true)
    ∧ ∃ step, (trail .standard (.ofWellFormed tenths))[3]? = some step ∧ step.iteration = 2
      ∧ step.basis = [0, 1] ∧ step.basis.length = tenths.numConstraints
      ∧ (∃ x, step.tableau.cell? 0 0 = some x ∧ x == 1)
      ∧ (∃ x, step.tableau.cell? 1 0 = some x ∧ x == 0)
      ∧ ∃ x, step.tableau.cell? 2 0 = some x ∧ x == 0 := by
  have hε : (0 : Float) ≤ Settings.standard.tolerance := by decide +kernel
  have hp : tenths.WellFormed := by rfl
  have hall : (trail .standard (.ofWellFormed tenths)).all
      (fun step ↦ step.grid.all fun cells ↦ cells.all Scalar.isFinite) = true := by decide +kernel
  have hlast : (trail .standard (.ofWellFormed tenths))[3]?.map
      (fun step ↦ (step.iteration, step.basis)) = some (2, [0, 1]) := by decide +kernel
  have hfinite : ∀ l < 3, ∀ earlier ∈ (trail .standard (.ofWellFormed tenths))[l]?,
      ∀ cells ∈ earlier.grid, ∀ x ∈ cells, Scalar.isFinite x = true := by
    intro l _ earlier hearlier cells hcells x hx
    have hstep := List.all_eq_true.mp hall earlier (List.mem_of_getElem? hearlier)
    exact List.all_eq_true.mp (List.all_eq_true.mp hstep cells hcells) x hx
  obtain ⟨step, hstep, hlast⟩ := Option.map_eq_some_iff.mp hlast
  obtain ⟨hiteration, hbasis⟩ := Prod.mk.inj hlast
  obtain ⟨hlength, -, -, hunit, -, -⟩ := unit_basis_of_trail hε hp hstep hfinite
  have hcolumn : step.basis[0]? = some 0 := by rw [hbasis]; rfl
  exact ⟨hε, hp, hfinite, step, hstep, hiteration, hbasis, hlength,
    hunit 0 0 hcolumn 0 (by decide), hunit 0 0 hcolumn 1 (by decide),
    hunit 0 0 hcolumn 2 (by decide)⟩

end LinearProgramming
