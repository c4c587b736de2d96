import LinearProgramming.Proofs.Run.LastTableau
import LinearProgramming.Proofs.Run.Trail

/-!
# How the objective moves

A pivot adds to the objective's constant what the entering column earns per unit, times how far the
column can grow in its row. With tolerance zero neither factor is negative when the rules choose the
pivot, so the objective never falls along a phase. An exchange of an artificial variable follows no
rule of this kind, but its row has constant zero and the objective stays where it is.

In phase one the objective is the negated sum of the artificial variables at the basic solution. It
is never above zero, and it is zero from the end of the phase on.
-/

namespace LinearProgramming

namespace Tableau

variable {form : StandardForm ℚ} {t : Tableau ℚ} {i j : ℕ} {a : TableauRow ℚ}

theorem constantOf_row (ha : t.rows[i]? = some a) (h : t.Represents form) :
    t.constantOf (t.row i) = cellAt a.cells form.numColumns := by
  rw [constantOf, row_eq ha, h.numColumns_eq]

theorem Represents.objectiveValue_pivot (h : t.Represents form) (ha : t.rows[i]? = some a)
    (hne : cellAt a.cells j ≠ 0) : (t.pivot i j).objectiveValue = t.objectiveValue
      + -cellAt t.objective j * (t.constantOf (t.row i) / t.cell i j) := by
  have hlen : a.cells.length = t.objective.length := by
    rw [h.canonical.rows.length_cells ha, h.canonical.length_objective]
  rw [objectiveValue, constantOf, numColumns_pivot h.canonical ha,
    cellAt_objective_pivot ha hlen hne, constantOf_row ha h, cell, row_eq ha, objectiveValue,
    constantOf, h.numColumns_eq]
  ring

/-- **A chosen pivot does not lower the objective.** -/
theorem Represents.objectiveValue_le_pivot (h : t.Represents form) (hnonneg : t.Nonnegative form)
    (hj : t.enteringColumn form 0 = some j) (hi : t.leavingRow 0 j = some i) :
    t.objectiveValue ≤ (t.pivot i j).objectiveValue := by
  obtain ⟨a, ha, hpos, -⟩ := exists_of_leavingRow_eq_some hi
  have hearns : 0 ≤ -cellAt t.objective j := (enters_of_enteringColumn hj).earns.le
  have hgrows : 0 ≤ t.constantOf (t.row i) / t.cell i j := by
    rw [constantOf_row ha h, cell, row_eq ha]
    exact div_nonneg (hnonneg ha) hpos.le
  rw [h.objectiveValue_pivot ha hpos.ne']
  linarith [mul_nonneg hearns hgrows]

/-- **An exchange leaves the objective as it is.** -/
theorem Exact.objectiveValue_exchange {rows : List ℕ} (hrep : t.Represents form)
    (h : t.Exact form (.exchanging rows)) (hart : t.basis[i]?.any form.isArtificial = true)
    (hj : t.replacementColumn form 0 i = some j) :
    (t.pivot i j).objectiveValue = t.objectiveValue := by
  obtain ⟨a, ha, hart⟩ := exists_row_of_basis_any hart
  obtain ⟨-, -, hcell⟩ := replacementColumn_eq_some hj
  rw [cell, row_eq ha, abs_pos] at hcell
  rw [hrep.objectiveValue_pivot ha hcell, constantOf_row ha hrep, (h.idle rfl ha hart).1, zero_div,
    mul_zero, add_zero]

theorem Represents.objectiveValue_nonpos (h : t.Represents form) (hnonneg : t.Nonnegative form)
    (hphase : t.phase = .one) : t.objectiveValue ≤ 0 := by
  rw [h.objectiveValue_eq, hphase]
  exact StandardForm.worth_one_nonpos (hnonneg.basicSolution_nonneg h)

/-- From the end of phase one on the artificial variables are zero, and so is their sum. -/
theorem Exact.objectiveValue_eq_zero {rows : List ℕ} (hrep : t.Represents form)
    (hphase : t.phase = .one) (h : t.Exact form (.exchanging rows)) : t.objectiveValue = 0 := by
  rw [hrep.objectiveValue_eq, hphase]
  exact StandardForm.worth_one_of_genuine ((h.idle rfl).genuine_basicSolution hrep)

/-- That the rules choose row `i` and column `j` to pivot on. -/
def Chooses (form : StandardForm ℚ) (ε : ℚ) (t : Tableau ℚ) (i j : ℕ) : Prop :=
  t.enteringColumn form ε = some j ∧ t.leavingRow ε j = some i

/-- That phase one is over, with artificial variables that sum to zero, and the one that is still
basic in row `i` is to be exchanged for column `j`. -/
structure Exchanges (form : StandardForm ℚ) (ε : ℚ) (t : Tableau ℚ) (i j : ℕ) : Prop where
  phase_eq : t.phase = .one
  objectiveValue_eq : t.objectiveValue = 0
  isArtificial : t.basis[i]?.any form.isArtificial = true
  replacementColumn_eq : t.replacementColumn form ε i = some j

end Tableau

/-- **No pivot lowers the objective.** A chosen one adds what the entering column earns per unit,
times the ratio of its row, and an exchange adds nothing. -/
theorem Move.objectiveValue {p : Problem ℚ} {t t' : Tableau ℚ} {i j : ℕ} (hp : p.WellFormed)
    (h : Move (.ofWellFormed p) 0 t (some (i, j)) t') :
    t' = t.pivot i j ∧ t.objectiveValue ≤ t'.objectiveValue
      ∧ (t.Chooses (.ofWellFormed p) 0 i j ∧ t'.objectiveValue = t.objectiveValue
          + -cellAt t.objective j * (t.constantOf (t.row i) / t.cell i j)
        ∨ t.Exchanges (.ofWellFormed p) 0 i j ∧ t'.objectiveValue = t.objectiveValue) := by
  cases h with
  | chosen h hj hi =>
    have hrep := h.represents hp le_rfl
    obtain ⟨a, ha, hpos, -⟩ := Tableau.exists_of_leavingRow_eq_some hi
    exact ⟨rfl, hrep.objectiveValue_le_pivot (h.exact hp).nonnegative hj hi,
      .inl ⟨⟨hj, hi⟩, hrep.objectiveValue_pivot ha hpos.ne'⟩⟩
  | exchanged h hart hj =>
    have hrep := h.represents hp le_rfl
    have hexact := h.exact hp
    have hkeeps := hexact.objectiveValue_exchange hrep hart hj
    exact ⟨rfl, hkeeps.ge, .inr ⟨⟨h.phase_eq, hexact.objectiveValue_eq_zero hrep h.phase_eq, hart,
      hj⟩, hkeeps⟩⟩

end LinearProgramming
