import Mathlib.Algebra.Order.Field.Rat
import Mathlib.Order.Interval.Finset.Nat
import LinearProgramming.Proofs.Run.Concludes
import LinearProgramming.Proofs.Run.Represents

/-!
# Columns that no row limits in phase one

The objective of phase one never exceeds zero, so no column should be able to raise it without end.
But whether a column enters is decided by its cost, which is the sum of its cells in the rows of the
artificial variables, and whether a row limits it is decided by single cells, and both are compared
with the same tolerance. So cells that each count as zero may add up to a cost that does not, and
then the column enters and no row leaves.

It takes two artificial variables and a tolerance above zero for that. The tableau at which it
happens does not show the problem to be infeasible. What it shows is that a feasible point lies far
out: the columns have to make up for what the artificial variables still sum to with cells that were
taken for zero.
-/

open Finset

namespace LinearProgramming

namespace Tableau

variable {p : Problem ℚ} {ε : ℚ} {t : Tableau ℚ} {j k : ℕ}

/-! ## Costs in phase one -/

theorem Represents.objective_eq (h : t.Represents (.ofWellFormed p)) : t.objective
    = priceOut t.rows (((StandardForm.ofWellFormed p).costs t.phase).map (-·) ++ [0]) := by
  have hrows := h.canonical.rows
  have hcosts := length_costs p t.phase
  have hinstalled := canonical_withCosts hrows hcosts
  refine hrows.eq_of_cellAt_basic h.canonical.length_objective hinstalled.length_objective
    (fun row hrow ↦ ?_) fun u hu ↦ ?_
  · obtain ⟨i, hi⟩ := List.mem_iff_getElem?.mp hrow
    rw [h.canonical.objective_basic hi]
    exact (hinstalled.objective_basic hi).symm
  · have hworth := h.worth u ((holds_iff_of_length h.canonical.length_objective).mpr hu)
    rw [h.numColumns_eq] at hworth
    exact hworth.trans (residual_withCosts hrows hcosts hu).symm

/-- The rows in which an artificial variable is basic. -/
def artificialRows (form : StandardForm ℚ) (t : Tableau ℚ) : List (TableauRow ℚ) :=
  t.rows.filter fun row ↦ form.isArtificial row.basic

/-- What the cells of a column in the rows of artificial variables sum to. -/
def artificialSum (form : StandardForm ℚ) (t : Tableau ℚ) (j : ℕ) : ℚ :=
  ((t.artificialRows form).map fun row ↦ cellAt row.cells j).sum

/-- **Costs in phase one.** A column earns what it takes from the artificial variables, less the one
that it costs if it is artificial itself. -/
theorem Represents.cellAt_objective_one (h : t.Represents (.ofWellFormed p))
    (hphase : t.phase = .one) (hk : k < (StandardForm.ofWellFormed p).numColumns) :
    cellAt t.objective k = (if (StandardForm.ofWellFormed p).isArtificial k then 1 else 0)
      - t.artificialSum (.ofWellFormed p) k := by
  have hcosts := length_costs p .one
  have hwritten : ∀ {c : ℕ}, c < (StandardForm.ofWellFormed p).numColumns →
      cellAt (((StandardForm.ofWellFormed p).costs .one).map (-·) ++ [0]) c
        = if (StandardForm.ofWellFormed p).isArtificial c then 1 else 0 := by
    intro c hc
    rw [cellAt_written hcosts hc, StandardForm.cellAt_costs_one _ hc]
    split_ifs
    · exact neg_neg 1
    · exact neg_zero
  have hterm : ∀ row ∈ t.rows,
      cellAt (((StandardForm.ofWellFormed p).costs .one).map (-·) ++ [0]) row.basic
          * cellAt row.cells k
        = if (StandardForm.ofWellFormed p).isArtificial row.basic = true
            then cellAt row.cells k else 0 := by
    intro row hrow
    obtain ⟨i, hi⟩ := List.mem_iff_getElem?.mp hrow
    rw [hwritten (h.canonical.rows.basic_lt hi), ite_mul, one_mul, zero_mul]
  rw [h.objective_eq, hphase, cellAt_priceOut h.canonical.rows (length_written hcosts),
    hwritten hk, List.map_congr_left hterm, List.sum_map_ite, artificialSum, artificialRows]
  simp

/-! ## Columns that add up -/

/-- That all cells of column `j` count as zero, and those in the rows of artificial variables sum to
more than counts as zero. -/
structure AddsUp (form : StandardForm ℚ) (ε : ℚ) (t : Tableau ℚ) (j : ℕ) : Prop where
  le : ∀ row ∈ t.rows, cellAt row.cells j ≤ ε
  lt_sum : ε < t.artificialSum form j

/-- **A column that no row limits** in phase one is one that adds up. -/
theorem Represents.addsUp (h : t.Represents (.ofWellFormed p)) (hphase : t.phase = .one)
    (hj : t.enteringColumn (.ofWellFormed p) ε = some j) (hi : t.leavingRow ε j = none) :
    t.AddsUp (.ofWellFormed p) ε j := by
  have henters := enters_of_enteringColumn hj
  refine ⟨le_of_leavingRow_eq_none hi, ?_⟩
  have hbelow := henters.below
  rw [h.cellAt_objective_one hphase (h.numColumns_eq ▸ henters.lt_numColumns)] at hbelow
  have hown : (0 : ℚ) ≤ if (StandardForm.ofWellFormed p).isArtificial j then 1 else 0 := by
    split_ifs
    · exact zero_le_one
    · exact le_refl 0
  linarith

namespace AddsUp

variable {form : StandardForm ℚ}

theorem sum_le (h : t.AddsUp form ε j) :
    t.artificialSum form j ≤ (t.artificialRows form).length * ε := by
  have hle := List.sum_le_card_nsmul ((t.artificialRows form).map fun row ↦ cellAt row.cells j) ε
    (by
      rw [List.forall_mem_map]
      exact fun row hrow ↦ h.le row (List.mem_of_mem_filter hrow))
  rwa [List.length_map, nsmul_eq_mul] at hle

/-- Cells that count as zero do not add up where they have to be zero, nor does a single one. -/
theorem two_le (h : t.AddsUp form ε j) (hε : 0 ≤ ε) :
    0 < ε ∧ 2 ≤ (t.artificialRows form).length := by
  have hlt : ε < (t.artificialRows form).length * ε := h.lt_sum.trans_le h.sum_le
  have hpos : 0 < ε := by
    rcases hε.lt_or_eq with hpos | rfl
    · exact hpos
    · rw [mul_zero] at hlt
      exact absurd hlt (lt_irrefl 0)
  refine ⟨hpos, ?_⟩
  by_contra hfew
  have hone : ((t.artificialRows form).length : ℚ) ≤ 1 := by
    exact_mod_cast Nat.le_of_lt_succ (not_le.mp hfew)
  exact absurd (mul_le_mul_of_nonneg_right hone hε) (by rw [one_mul]; exact not_le.mpr hlt)

end AddsUp

theorem Represents.length_artificialRows_le (h : t.Represents (.ofWellFormed p)) :
    (t.artificialRows (.ofWellFormed p)).length ≤ (StandardForm.ofWellFormed p).numArtificial := by
  have hnodup : ((t.artificialRows (.ofWellFormed p)).map (·.basic)).Nodup :=
    (nodup_basis h.canonical.rows).sublist (List.filter_sublist.map _)
  have hsub : ((t.artificialRows (.ofWellFormed p)).map (·.basic)).toFinset
      ⊆ Ico (p.numVariables + p.numAuxiliary)
          (p.numVariables + p.numAuxiliary + p.numArtificial) := by
    intro c hc
    obtain ⟨row, hrow, rfl⟩ := List.mem_map.mp (List.mem_toFinset.mp hc)
    obtain ⟨i, normal, hi, hart, hbasic⟩ :=
      StandardForm.exists_of_isArtificial (List.mem_filter.mp hrow).2
    rw [mem_Ico, hbasic]
    exact ⟨Problem.le_artificialOf, Problem.artificialOf_lt hi hart⟩
  have hcard := card_le_card hsub
  rwa [List.toFinset_card_of_nodup hnodup, List.length_map, Nat.card_Ico,
    Nat.add_sub_cancel_left] at hcard

/-- **A feasible point lies far out.** Where a column enters that adds up, a solution without
artificial variables has to make up for their sum with cells that count as zero. -/
theorem Represents.neg_objectiveValue_le (h : t.Represents (.ofWellFormed p))
    (hphase : t.phase = .one) (hj : t.enteringColumn (.ofWellFormed p) ε = some j)
    (hadds : t.AddsUp (.ofWellFormed p) ε j) {u : ℕ → ℚ}
    (hu : (StandardForm.ofWellFormed p).Holds u) (hnonneg : ∀ c, 0 ≤ u c)
    (hgenuine : (StandardForm.ofWellFormed p).Genuine u) :
    -t.objectiveValue ≤ (t.artificialRows (.ofWellFormed p)).length * ε
      * ∑ c ∈ range (StandardForm.ofWellFormed p).numColumns, u c := by
  have henters := enters_of_enteringColumn hj
  have hjn : j < (StandardForm.ofWellFormed p).numColumns :=
    h.numColumns_eq ▸ henters.lt_numColumns
  -- The entering column has the least cost of all, and that is at least minus what it adds up to.
  have hcost : ∀ c ∈ range (StandardForm.ofWellFormed p).numColumns,
      -((t.artificialRows (.ofWellFormed p)).length * ε) ≤ cellAt t.objective c := by
    intro c hc
    have hmay : t.mayEnter (.ofWellFormed p) c = true := by simp [mayEnter, hphase]
    have hleast := henters.least c (h.numColumns_eq.symm ▸ mem_range.mp hc) hmay
    rw [h.cellAt_objective_one hphase hjn] at hleast
    have hsum := hadds.sum_le
    split_ifs at hleast <;> linarith
  have hworth := h.worth u ((h.holds_iff u).mpr hu)
  rw [hphase, StandardForm.worth_one_of_genuine hgenuine, residual, ← constantOf,
    ← objectiveValue, h.numColumns_eq, sub_eq_zero] at hworth
  rw [hworth, ← sum_neg_distrib, mul_sum]
  refine sum_le_sum fun c hc ↦ ?_
  have hle := mul_le_mul_of_nonneg_right (hcost c hc) (hnonneg c)
  linarith

end Tableau

/-! ## The warning -/

namespace Run

variable {α : Type} [Scalar α] {s : Settings α} {form : StandardForm α} {stage : Stage}
  {r r' : Run α} {status : Status} {j : ℕ}

theorem Passes.notMem_events (h : Passes s form stage r) (j : ℕ) :
    Event.phaseOneUnbounded j ∉ r.events := by
  induction h with
  | start => simp [Run.start]
  | pivot _ _ _ _ ih => simp [Run.pivot, ih]
  | turn _ _ _ ih => exact ih
  | pass _ _ ih => exact ih
  | redundant _ _ _ ih => simp [report, ih]
  | exchange _ _ _ _ ih => simp [Run.pivot, ih]
  | enterPhaseTwo _ ih => simp [Run.enterPhaseTwo, ih]

/-- **The warning ends the solve**, as infeasible, at a tableau of phase one in which the column it
names enters and no row leaves. -/
theorem Concludes.exists_of_mem_events (h : Concludes s form stage r r' status)
    (hr : Passes s form stage r) (hlimit : r'.iterations ≤ s.maxIterations)
    (hmem : Event.phaseOneUnbounded j ∈ r'.events) :
    status = .infeasible ∧ ∃ q, Passes s form (.optimizing .one) q
      ∧ q.tableau.enteringColumn form s.tolerance = some j
      ∧ q.tableau.leavingRow s.tolerance j = none := by
  obtain ⟨stage', q, hq, hcloses⟩ := h.exists_closes hr hlimit
  have hbefore : ∀ event : Event α, Event.phaseOneUnbounded j ∈ (q.report event).events →
      Event.phaseOneUnbounded j = event := by
    intro event hmem
    simp only [report, Array.mem_push] at hmem
    exact hmem.resolve_left (hq.notMem_events j)
  rcases hcloses with _ | _ | ⟨hj, hi⟩ | _
  · exact absurd hmem (hq.notMem_events j)
  · exact absurd hmem (hq.notMem_events j)
  · cases hbefore _ hmem
    exact ⟨rfl, q, hq, hj, hi⟩
  · cases hbefore _ hmem

end Run

end LinearProgramming
