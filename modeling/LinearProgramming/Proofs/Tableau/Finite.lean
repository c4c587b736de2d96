import LinearProgramming.Proofs.Scalar.Magnitude
import LinearProgramming.Proofs.Tableau.Choice
import LinearProgramming.Proofs.Tableau.Units

/-!
# Tableaus without overflow

A tableau whose cells are finite and not too large is followed by a tableau whose cells are finite.
A pivot divides by an element that is above the tolerance, so the quotients are larger than the
cells by a known factor at most, and every other cell takes one product and one difference. An
objective is installed with a product and a difference for each row, and as the basic columns are
exact units, each of these products is one of a cost and a cell.
-/

open LinearProgramming.Double

namespace LinearProgramming

/-! ## Row operations -/

section Rows

variable {α : Type} [Scalar α] {P : α → Prop} {f : α} {source row : List α} {j : ℕ}

theorem forall_mem_subtractMultiple (h : ∀ x ∈ row, ∀ y ∈ source, P (x - f * y)) :
    ∀ x ∈ subtractMultiple f source row, P x := by
  intro x hx
  obtain ⟨i, hi, rfl⟩ := List.mem_iff_getElem.mp hx
  rw [subtractMultiple, List.length_zipWith] at hi
  simp only [subtractMultiple, List.getElem_zipWith]
  exact h _ (List.getElem_mem _) _ (List.getElem_mem _)

theorem forall_mem_scaleTo (hone : P 1) (h : ∀ x ∈ row, P (x / cellAt row j)) :
    ∀ x ∈ scaleTo j row, P x := by
  intro x hx
  rcases List.mem_or_eq_of_mem_set hx with hx | rfl
  · obtain ⟨y, hy, rfl⟩ := List.mem_map.mp hx
    exact h y hy
  · exact hone

theorem forall_mem_clearColumn (hzero : P 0) (hrow : ∀ x ∈ row, P x)
    (h : ∀ x ∈ row, ∀ y ∈ source, P (x - cellAt row j * y)) :
    ∀ x ∈ clearColumn source j row, P x := by
  rw [clearColumn]
  split_ifs
  · intro x hx
    rcases List.mem_or_eq_of_mem_set hx with hx | rfl
    · exact forall_mem_subtractMultiple h x hx
    · exact hzero
  · exact hrow

theorem cellAt_of_forall_mem (hzero : P 0) (h : ∀ x ∈ row, P x) (j : ℕ) : P (cellAt row j) := by
  by_cases hj : j < row.length
  · rw [cellAt_eq_getElem hj]
    exact h _ (List.getElem_mem hj)
  · rw [cellAt, List.getElem?_eq_none (not_lt.mp hj)]
    exact hzero

end Rows

namespace Tableau

/-! ## Pivots -/

/-- No cell is larger than `r`. -/
structure AllWithin (r : ℚ) (t : Tableau Float) : Prop where
  rows : ∀ a ∈ t.rows, ∀ x ∈ a.cells, Within r x
  objective : ∀ x ∈ t.objective, Within r x

variable {t : Tableau Float} {r : ℚ} {i j : ℕ} {a : TableauRow Float} {k c : ℤ}

theorem AllWithin.finite (h : t.AllWithin r) : t.Finite :=
  forall_mem_grid_iff.mpr
    ⟨fun a ha x hx ↦ (h.rows a ha x hx).isFinite, fun x hx ↦ (h.objective x hx).isFinite⟩

theorem within_clearColumn (hk : 0 ≤ k) (hc : 0 ≤ c) (hroom : 2 * k + c + 1 ≤ 1023)
    {source row : List Float} (hsource : ∀ y ∈ source, Within (2 ^ (k + c)) y)
    (hrow : ∀ x ∈ row, Within (2 ^ k) x) :
    ∀ x ∈ clearColumn source j row, Within (2 ^ (2 * k + c + 1)) x := by
  have hpow : (0 : ℚ) ≤ 2 ^ k := by positivity
  have hfactor := cellAt_of_forall_mem (within_zero hpow) hrow j
  refine forall_mem_clearColumn (within_zero (by positivity))
    (fun x hx ↦ (hrow x hx).mono (zpow_le_zpow_right₀ one_le_two (by omega))) fun x hx y hy ↦ ?_
  have hproduct : Within (2 ^ (2 * k + c)) (cellAt row j * y) := by
    refine hfactor.mul (hsource y hy) (isBound_two_zpow (by omega) (by omega)) (le_of_eq ?_)
    rw [← zpow_add₀ two_ne_zero]
    exact congrArg _ (by ring)
  refine (hrow x hx).sub hproduct (isBound_two_zpow (by omega) hroom) ?_
  have hle : (2 : ℚ) ^ k ≤ 2 ^ (2 * k + c) := zpow_le_zpow_right₀ one_le_two (by omega)
  rw [zpow_add_one₀ two_ne_zero]
  linarith

/-- **A pivot on an element that is not too small** makes no cell too large. -/
theorem AllWithin.pivot (h : t.AllWithin (2 ^ k)) (hk : 0 ≤ k) (hc : 0 ≤ c)
    (hroom : 2 * k + c + 1 ≤ 1023) (ha : t.rows[i]? = some a)
    (hsize : 2 ^ (-c) ≤ size (cellAt a.cells j).toModel.unpack) :
    (t.pivot i j).AllWithin (2 ^ (2 * k + c + 1)) := by
  have hcells := h.rows a (List.mem_of_getElem? ha)
  have helement := cellAt_of_forall_mem (within_zero (by positivity)) hcells j
  have hsource : ∀ y ∈ scaleTo j a.cells, Within (2 ^ (k + c)) y := by
    refine forall_mem_scaleTo (within_one (one_le_zpow₀ one_le_two (by omega))) fun x hx ↦ ?_
    refine (hcells x hx).div (by positivity) helement.isFinite hsize
      (isBound_two_zpow (by omega) (by omega)) (le_of_eq ?_)
    rw [← zpow_sub₀ two_ne_zero, sub_neg_eq_add]
  constructor
  · intro b hb
    obtain ⟨l, hl⟩ := List.mem_iff_getElem?.mp hb
    rcases rows_pivot_cases ha hl with ⟨-, -, hscaled⟩ | ⟨-, b', hb', -, hcleared⟩
    · rw [hscaled]
      exact fun x hx ↦ (hsource x hx).mono (zpow_le_zpow_right₀ one_le_two (by omega))
    · rw [hcleared]
      exact within_clearColumn hk hc hroom hsource (h.rows b' (List.mem_of_getElem? hb'))
  · rw [objective_pivot_eq ha]
    exact within_clearColumn hk hc hroom hsource h.objective

/-! ## Objectives -/

theorem within_clearBasic {m : ℕ} (hk : 0 ≤ k) (hroom : 2 * k + 53 ≤ 1023) (hm : m + 1 < 2 ^ 53)
    {obj : List Float} (hcells : ∀ x ∈ a.cells, Within (2 ^ k) x)
    (hfactor : Within (2 ^ k) (cellAt obj a.basic))
    (hobj : ∀ x ∈ obj, Within (m * 2 ^ (2 * k)) x) :
    ∀ x ∈ clearBasic obj a, Within ((m + 1 : ℕ) * 2 ^ (2 * k)) x := by
  have hpow : (0 : ℚ) ≤ 2 ^ (2 * k) := by positivity
  rw [clearBasic]
  split_ifs
  · refine forall_mem_subtractMultiple fun x hx y hy ↦ ?_
    have hproduct : Within (2 ^ (2 * k)) (cellAt obj a.basic * y) := by
      refine hfactor.mul (hcells y hy) (isBound_two_zpow (by omega) (by omega)) (le_of_eq ?_)
      rw [← zpow_add₀ two_ne_zero]
      exact congrArg _ (by ring)
    refine (hobj x hx).sub hproduct (isBound_mul_two_zpow hm (by omega) hroom) (le_of_eq ?_)
    push_cast
    ring
  · refine fun x hx ↦ (hobj x hx).mono (mul_le_mul_of_nonneg_right ?_ hpow)
    exact_mod_cast Nat.le_succ m

/-- **Re-expressing an objective** adds up one product for each row. The factors are the costs as
they were in the beginning, since no row takes anything from another basic column. -/
theorem within_priceOut {n m : ℕ} (hk : 0 ≤ k) (hroom : 2 * k + 53 ≤ 1023)
    {rows : List (TableauRow Float)} {obj : List Float} (h : UnitRows n rows)
    (hlen : obj.length = n + 1) (hm : m + rows.length < 2 ^ 53)
    (hcells : ∀ a ∈ rows, ∀ x ∈ a.cells, Within (2 ^ k) x)
    (hfactors : ∀ a ∈ rows, Within (2 ^ k) (cellAt obj a.basic))
    (hobj : ∀ x ∈ obj, Within (m * 2 ^ (2 * k)) x) :
    ∀ x ∈ priceOut rows obj, Within ((m + rows.length : ℕ) * 2 ^ (2 * k)) x := by
  induction rows generalizing obj m with
  | nil => exact hobj
  | cons row rows ih =>
    rw [List.length_cons] at hm ⊢
    have hwidth : row.cells.length = obj.length := by rw [h.length_cells (i := 0) rfl, hlen]
    have hfactor := hfactors row List.mem_cons_self
    have hstep := within_clearBasic hk hroom (by omega) (hcells row List.mem_cons_self) hfactor hobj
    have hkept : ∀ b ∈ rows, Within (2 ^ k) (cellAt (clearBasic obj row) b.basic) := by
      intro b hb
      obtain ⟨i, hi⟩ := List.mem_iff_getElem?.mp hb
      have hlt := h.basic_lt (i := i + 1) hi
      have hzero := h.unit_of_ne (i := i + 1) (k := 0) hi rfl (Nat.succ_ne_zero i).symm
      have hcost := hfactors b (List.mem_cons_of_mem _ hb)
      exact Within.of_beq (cellAt_clearBasic_beq hwidth (by omega) hcost.isFinite hfactor.isFinite
        hzero) hcost
    have hrest := ih (m := m + 1) h.tail ((length_clearBasic hwidth).trans hlen) (by omega)
      (fun a ha ↦ hcells a (List.mem_cons_of_mem _ ha)) hkept hstep
    rw [priceOut_cons]
    intro x hx
    rw [← Nat.add_assoc, Nat.add_right_comm]
    exact hrest x hx

/-- **An objective can be installed** where neither the cells nor the costs are too large. -/
theorem withCosts_finite {n : ℕ} {costs : List Float} (hk : 0 ≤ k) (hroom : 2 * k + 53 ≤ 1023)
    (h : UnitRows n t.rows) (hm : t.rows.length < 2 ^ 52)
    (hcells : ∀ a ∈ t.rows, ∀ x ∈ a.cells, Within (2 ^ k) x) (hlen : costs.length = n)
    (hcosts : ∀ x ∈ costs, Within (2 ^ k) x) : (t.withCosts costs).Finite := by
  have hwritten : ∀ x ∈ costs.map (-·) ++ [0], Within (2 ^ k) x := by
    intro x hx
    rcases List.mem_append.mp hx with hx | hx
    · obtain ⟨y, hy, rfl⟩ := List.mem_map.mp hx
      exact (hcosts y hy).neg
    · rw [List.mem_singleton.mp hx]
      exact within_zero (by positivity)
  have hobjective := within_priceOut (m := 1) hk hroom h
    (by rw [List.length_append, List.length_map, hlen, List.length_singleton]) (by omega) hcells
    (fun a _ ↦ cellAt_of_forall_mem (within_zero (by positivity)) hwritten a.basic)
    (fun x hx ↦ (hwritten x hx).mono (by
      rw [Nat.cast_one, one_mul]
      exact zpow_le_zpow_right₀ one_le_two (by omega)))
  exact forall_mem_grid_iff.mpr
    ⟨fun a ha x hx ↦ (hcells a ha x hx).isFinite, fun x hx ↦ (hobjective x hx).isFinite⟩

end Tableau

/-! ## The numbers of a problem -/

section Numbers

variable {α : Type} [Scalar α] {P : α → Prop} {p : Problem α}

omit [Scalar α] in
def Problem.numbers (p : Problem α) : List α :=
  p.objective ++ p.constraints.flatMap fun con ↦ con.rhs :: con.coefficients

theorem StandardForm.forall_mem_rows (hzero : P 0) (hone : P 1) (hneg : ∀ x, P x → P (-x))
    (h : ∀ x ∈ p.numbers, P x) : ∀ row ∈ (ofWellFormed p).rows,
      ∀ x ∈ row.coefficients ++ [row.rhs], P x := by
  intro placed hplaced x hx
  obtain ⟨i, hi⟩ := List.mem_iff_getElem?.mp hplaced
  obtain ⟨row, hrow, rfl⟩ := exists_of_getElem?_rows hi
  obtain ⟨con, hcon, rfl⟩ := Problem.exists_of_getElem?_normalRows hrow
  have hcon' : ∀ x ∈ con.rhs :: con.coefficients, P x := fun x hx ↦ h x <|
    List.mem_append_right _ (List.mem_flatMap.mpr ⟨con, List.mem_of_getElem? hcon, hx⟩)
  have hnormal : P con.normalize.rhs ∧ ∀ x ∈ con.normalize.coefficients, P x := by
    rw [Constraint.normalize]
    split_ifs
    · refine ⟨hneg _ (hcon' _ List.mem_cons_self), fun x hx ↦ ?_⟩
      obtain ⟨y, hy, rfl⟩ := List.mem_map.mp hx
      exact hneg y (hcon' y (List.mem_cons_of_mem _ hy))
    · exact ⟨hcon' _ List.mem_cons_self, fun x hx ↦ hcon' x (List.mem_cons_of_mem _ hx)⟩
  rw [NormalRow.place] at hx
  rcases List.mem_append.mp hx with hx | hx
  · rcases List.mem_append.mp hx with hx | hx
    · exact hnormal.2 x hx
    · obtain ⟨j, -, rfl⟩ := List.mem_map.mp hx
      rw [NormalRow.auxiliaryCoefficient]
      split_ifs
      · exact hneg 1 hone
      · exact hone
      · exact hone
      · exact hzero
  · exact List.mem_singleton.mp hx ▸ hnormal.1

end Numbers

end LinearProgramming
