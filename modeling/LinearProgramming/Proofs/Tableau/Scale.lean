import LinearProgramming.Proofs.Row
import LinearProgramming.Tableau.PivotRule

/-!
# Scaled objectives

Multiplying the costs of a problem by a positive number asks for the same optimum in another
currency. In a tableau of phase two it multiplies the objective row and nothing else, and a pivot
keeps it so: whether a row is cleared depends on a cell being zero, and what is subtracted from a
row is proportional to its own cell. In phase one the costs are not looked at.

The rules do not notice either. The entering column is the first with the least cost below zero,
which is the same column for proportional costs, and the leaving row and the replacement of an
artificial variable are chosen without the objective row.
-/

namespace LinearProgramming

/-! ## Rows -/

def scaleRow (k : ℚ) (row : List ℚ) : List ℚ := row.map (k * ·)

section Rows

variable {k : ℚ}

@[simp] theorem length_scaleRow (k : ℚ) (row : List ℚ) :
    (scaleRow k row).length = row.length := List.length_map _

@[simp] theorem cellAt_scaleRow (k : ℚ) (row : List ℚ) (j : ℕ) :
    cellAt (scaleRow k row) j = k * cellAt row j := cellAt_map (mul_zero k) row j

@[simp] theorem scaleRow_one (row : List ℚ) : scaleRow 1 row = row := by
  rw [scaleRow, funext one_mul]
  exact List.map_id row

theorem subtractMultiple_scaleRow (k factor : ℚ) (source row : List ℚ) :
    subtractMultiple (k * factor) source (scaleRow k row)
      = scaleRow k (subtractMultiple factor source row) := by
  rw [subtractMultiple, subtractMultiple, scaleRow, scaleRow, List.zipWith_map_left,
    List.map_zipWith]
  refine congrArg (fun f ↦ List.zipWith f row source) (funext₂ fun x y ↦ ?_)
  change k * x - k * factor * y = k * (x - factor * y)
  rw [mul_sub, mul_assoc]

private theorem cellAt_scaleRow_bne (hk : 0 < k) (row : List ℚ) (j : ℕ) :
    (cellAt (scaleRow k row) j != 0) = (cellAt row j != 0) := by
  rw [Bool.eq_iff_iff, bne_iff_ne, bne_iff_ne, cellAt_scaleRow]
  exact not_congr (mul_eq_zero_iff_left hk.ne')

theorem clearColumn_scaleRow (hk : 0 < k) (source : List ℚ) (j : ℕ) (row : List ℚ) :
    clearColumn source j (scaleRow k row) = scaleRow k (clearColumn source j row) := by
  rw [clearColumn, clearColumn, cellAt_scaleRow_bne hk]
  split_ifs
  · rw [cellAt_scaleRow, subtractMultiple_scaleRow, scaleRow, scaleRow, List.map_set, mul_zero]
  · rfl

theorem priceOut_scaleRow (hk : 0 < k) (rows : List (TableauRow ℚ)) (obj : List ℚ) :
    priceOut rows (scaleRow k obj) = scaleRow k (priceOut rows obj) := by
  induction rows generalizing obj with
  | nil => rfl
  | cons row rows ih =>
    rw [priceOut, priceOut, List.foldl_cons, List.foldl_cons, ← priceOut, ← priceOut,
      cellAt_scaleRow_bne hk]
    split_ifs
    · rw [cellAt_scaleRow, subtractMultiple_scaleRow, ih]
    · exact ih obj

end Rows

def StandardForm.scaleObjective (k : ℚ) (form : StandardForm ℚ) : StandardForm ℚ :=
  { form with objective := scaleRow k form.objective }

/-- What the objective row of a phase is multiplied by if the costs of phase two are by `k`. -/
def Phase.factor (k : ℚ) : Phase → ℚ
  | .one => 1
  | .two => k

theorem Phase.factor_pos {k : ℚ} (hk : 0 < k) (phase : Phase) : 0 < phase.factor k := by
  cases phase with
  | one => exact one_pos
  | two => exact hk

namespace Tableau

variable {k : ℚ} {form : StandardForm ℚ}

/-- The tableau with the objective row that belongs to costs multiplied by `k`. -/
def scaleObjective (k : ℚ) (t : Tableau ℚ) : Tableau ℚ :=
  { t with objective := scaleRow (t.phase.factor k) t.objective }

@[simp] theorem numColumns_scaleObjective (k : ℚ) (t : Tableau ℚ) :
    (t.scaleObjective k).numColumns = t.numColumns := by
  rw [numColumns, scaleObjective, length_scaleRow, numColumns]

theorem cellAt_objective_scaleObjective (k : ℚ) (t : Tableau ℚ) (j : ℕ) :
    cellAt (t.scaleObjective k).objective j = t.phase.factor k * cellAt t.objective j :=
  cellAt_scaleRow _ _ j

theorem objectiveValue_scaleObjective (k : ℚ) (t : Tableau ℚ) :
    (t.scaleObjective k).objectiveValue = t.phase.factor k * t.objectiveValue := by
  rw [objectiveValue, constantOf, numColumns_scaleObjective, cellAt_objective_scaleObjective]
  rfl

/-! ## Pivots -/

theorem pivot_scaleObjective (hk : 0 < k) (t : Tableau ℚ) (i j : ℕ) :
    (t.scaleObjective k).pivot i j = (t.pivot i j).scaleObjective k := by
  rw [pivot, scaleObjective, clearColumn_scaleRow (t.phase.factor_pos hk)]
  rfl

/-! ## Objectives -/

theorem phaseTwoCosts_scaleObjective (k : ℚ) (form : StandardForm ℚ) :
    phaseTwoCosts (form.scaleObjective k) = scaleRow k (phaseTwoCosts form) := by
  rw [phaseTwoCosts, phaseTwoCosts, scaleRow, List.map_append, List.map_replicate, mul_zero]
  rfl

private theorem map_neg_scaleRow (k : ℚ) (costs : List ℚ) :
    (scaleRow k costs).map (-·) ++ [0] = scaleRow k (costs.map (-·) ++ [0]) := by
  rw [scaleRow, scaleRow, List.map_append, List.map_map, List.map_map, List.map_singleton, mul_zero]
  refine congrArg (· ++ [0]) (List.map_congr_left fun x _ ↦ ?_)
  exact (mul_neg k x).symm

/-- **Phase one does not see the costs.** -/
theorem installPhaseOne_scaleObjective (k : ℚ) (form : StandardForm ℚ) (t : Tableau ℚ) :
    t.installPhaseOne (form.scaleObjective k) = (t.installPhaseOne form).scaleObjective k := by
  rw [scaleObjective, show (t.installPhaseOne form).phase.factor k = 1 from rfl, scaleRow_one]
  rfl

/-- **The objective of phase two** is installed in proportion, whatever objective row there was. -/
theorem installPhaseTwo_scaleObjective (hk : 0 < k) (form : StandardForm ℚ) (t : Tableau ℚ) :
    t.installPhaseTwo (form.scaleObjective k) = (t.installPhaseTwo form).scaleObjective k := by
  rw [installPhaseTwo, withCosts, phaseTwoCosts_scaleObjective, map_neg_scaleRow,
    priceOut_scaleRow hk]
  rfl

theorem initial_scaleObjective (hk : 0 < k) (form : StandardForm ℚ) :
    initial (form.scaleObjective k) = (initial form).scaleObjective k := by
  rw [initial, initial, installPhaseOne_scaleObjective, installPhaseTwo_scaleObjective hk,
    apply_ite (scaleObjective k)]
  rfl

/-! ## Rules -/

/-- One step of the sweep for the entering column: a cheaper column takes the place of the one that
is carried. -/
def cheaper (may : ℕ → Bool) (best : ℚ × Option ℕ) (entry : ℚ × ℕ) : ℚ × Option ℕ :=
  if may entry.2 && entry.1 < best.1 then (entry.1, some entry.2) else best

theorem enteringColumn_eq_foldl (form : StandardForm ℚ) (ε : ℚ) (t : Tableau ℚ) :
    t.enteringColumn form ε = ((t.objective.take t.numColumns).zipIdx.foldl
      (cheaper (t.mayEnter form)) (-ε, none)).2 := rfl

theorem foldl_cheaper_scaleRow (hk : 0 < k) (may : ℕ → Bool) (costs : List ℚ)
    (best : ℚ × Option ℕ) :
    (scaleRow k costs).zipIdx.foldl (cheaper may) (Prod.map (k * ·) id best)
      = Prod.map (k * ·) id (costs.zipIdx.foldl (cheaper may) best) := by
  rw [scaleRow, List.zipIdx_map, List.foldl_map]
  refine List.foldl_hom _ fun best entry ↦ ?_
  rw [cheaper, cheaper, Prod.map_fst, Prod.map_fst, Prod.map_snd, id_eq]
  simp only [mul_lt_mul_iff_right₀ hk]
  split_ifs <;> rfl

/-- **The same column enters.** -/
theorem enteringColumn_scaleObjective (hk : 0 < k) (form : StandardForm ℚ) (t : Tableau ℚ) :
    (t.scaleObjective k).enteringColumn (form.scaleObjective k) 0 = t.enteringColumn form 0 := by
  have hinit : ((-0 : ℚ), (none : Option ℕ))
      = Prod.map (t.phase.factor k * ·) id ((-0 : ℚ), (none : Option ℕ)) := by
    simp
  have htake : (t.scaleObjective k).objective.take t.numColumns
      = scaleRow (t.phase.factor k) (t.objective.take t.numColumns) := List.map_take.symm
  rw [enteringColumn_eq_foldl, enteringColumn_eq_foldl, numColumns_scaleObjective, htake, hinit,
    foldl_cheaper_scaleRow (t.phase.factor_pos hk), ← hinit]
  rfl

theorem leavingRow_scaleObjective (k ε : ℚ) (t : Tableau ℚ) (j : ℕ) :
    (t.scaleObjective k).leavingRow ε j = t.leavingRow ε j := by
  unfold leavingRow candidate? constantOf
  rw [numColumns_scaleObjective]
  rfl

theorem replacementColumn_scaleObjective (k ε : ℚ) (form : StandardForm ℚ) (t : Tableau ℚ) (i : ℕ) :
    (t.scaleObjective k).replacementColumn (form.scaleObjective k) ε i
      = t.replacementColumn form ε i := by
  rw [replacementColumn, numColumns_scaleObjective]
  rfl

end Tableau

end LinearProgramming
