import LinearProgramming.Proofs.Run.Replay
import LinearProgramming.Proofs.Tableau.Units

/-!
# Units along a solve

A solve starts from exact units, and each of its moves keeps them as long as the tableau it is made
on is finite. So the tableaus of a trail have exact units up to the first one that follows a tableau
with an infinite or undefined cell.

Every rule that chooses a pivot element asks for one that is not zero. The leaving row does so by
its cell, which is above a tolerance that is not negative, and the exchange by the magnitude of it.
-/

namespace LinearProgramming

variable {α : Type} [Scalar α] [Scalar.ExactUnits α] {s : Settings α} {p : Problem α} {ε : α}
  {t t' : Tableau α}

/-- **A move keeps the units exact.** -/
theorem Move.units {pivot : Option (ℕ × ℕ)} (hp : p.WellFormed) (hε : 0 ≤ ε)
    (h : Move (.ofWellFormed p) ε t pivot t')
    (hunits : t.Units (StandardForm.ofWellFormed p).numColumns) (hfinite : t.Finite) :
    t'.Units (StandardForm.ofWellFormed p).numColumns := by
  have hcolumns : t.numColumns = (StandardForm.ofWellFormed p).numColumns := by
    rw [Tableau.numColumns, hunits.length_objective, Nat.add_sub_cancel]
  rcases h with ⟨-, hj, hi⟩ | ⟨-, hart, hj⟩ | -
  · obtain ⟨a, ha, hcell⟩ := Tableau.leavingRow_eq_some hi
    have hlt := (Tableau.enteringColumn_eq_some hj).1
    exact hunits.pivot hfinite ha (hcolumns ▸ hlt)
      fun hzero ↦ hcell (Scalar.ExactUnits.zero_le hzero hε)
  · obtain ⟨a, ha, -⟩ := Tableau.exists_row_of_basis_any hart
    obtain ⟨hlt, -, hcell⟩ := Tableau.mem_of_replacementColumn_eq_some hj
    rw [Tableau.cell, Tableau.row, ha] at hcell
    exact hunits.pivot hfinite ha (hcolumns ▸ hlt)
      fun hzero ↦ Scalar.ExactUnits.not_lt_abs hzero hε hcell
  · exact hunits.installPhaseTwo hp

/-- **The tableaus of a trail have exact units** as long as the ones before them are finite. -/
theorem units_of_getElem?_trail (hp : p.WellFormed) (hε : 0 ≤ s.tolerance) {k : ℕ} {step : Step α}
    (hstep : (trail s (.ofWellFormed p))[k]? = some step)
    (hfinite : ∀ l < k, ∀ earlier ∈ (trail s (.ofWellFormed p))[l]?, earlier.tableau.Finite) :
    step.tableau.Units (StandardForm.ofWellFormed p).numColumns := by
  induction k generalizing step with
  | zero =>
    rw [← List.head?_eq_getElem?, head?_trail, Option.some_inj] at hstep
    rw [← hstep, Tableau.tableau_toStep]
    exact Tableau.units_initial hp
  | succ k ih =>
    have hk : k < (trail s (.ofWellFormed p)).length :=
      Nat.lt_of_succ_lt (List.getElem?_eq_some_iff.mp hstep).1
    have hbefore := List.getElem?_eq_getElem hk
    have hunits := ih hbefore fun l hl ↦ hfinite l (Nat.lt_succ_of_lt hl)
    exact (move_of_getElem?_trail hbefore hstep).units hp hε hunits
      (hfinite k (Nat.lt_succ_self k) _ hbefore)

namespace Tableau.Units

variable {form : StandardForm α} {n i j k : ℕ}

/-- **No basic column enters**: its cost is zero. -/
theorem notMem_basis_of_enteringColumn (h : t.Units n) (hε : 0 ≤ ε)
    (hj : t.enteringColumn form ε = some j) : j ∉ t.basis := by
  intro hmem
  obtain ⟨a, ha, rfl⟩ := List.mem_map.mp hmem
  obtain ⟨i, hi⟩ := List.mem_iff_getElem?.mp ha
  have hbelow := Scalar.ExactUnits.lt_of_transGen (enteringColumn_eq_some hj).2.2
  exact Scalar.ExactUnits.not_lt_neg (h.objective_basic hi) hε hbelow

/-- **No column that is basic elsewhere replaces an artificial variable**: its cell is zero. -/
theorem getElem?_basis_ne_of_replacementColumn (h : t.Units n) (hε : 0 ≤ ε)
    (hj : t.replacementColumn form ε i = some j) (hki : k ≠ i) : t.basis[k]? ≠ some j := by
  intro hk
  rw [basis, List.getElem?_map, Option.map_eq_some_iff] at hk
  obtain ⟨b, hb, rfl⟩ := hk
  have hcell := (mem_of_replacementColumn_eq_some hj).2.2
  refine Scalar.ExactUnits.not_lt_abs ?_ hε hcell
  rw [cell, row]
  rcases ha : t.rows[i]? with _ | a
  · exact Scalar.ExactUnits.zero_beq_zero
  · exact h.rows.unit_of_ne hb ha hki.symm

end Tableau.Units

end LinearProgramming
