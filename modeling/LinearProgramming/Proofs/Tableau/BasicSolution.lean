import LinearProgramming.Proofs.Tableau.Objective
import LinearProgramming.Solution.ReadOff

/-!
# Basic solutions and rays

Setting the columns outside the basis to zero solves the rows at once: each basic column takes the
constant of its row. Letting one further column grow moves the basic columns along a line, the
*ray* of that column, which stays inside the solutions.

Both assign to a basic column something read off its row and to other columns something chosen
freely, and the sums over a canonical row then collapse to the row's own term. `basicAssignment`
is that common part.

## Multipliers

An objective row that is worth nothing on the solutions of the constraint rows is a combination of
these rows. When the rows are canonical the combination can be read off: each row sees its own basic
column alone, so its multiplier is the cell of the objective row there.

The basic solution and the rays are enough solutions to tell. Clearing the basic columns leaves a
row that is worth nothing at any of them, the basic solution shows its constant to be zero, and each
ray shows the cell of its column to be.
-/

open Finset

namespace LinearProgramming

namespace Tableau

variable {n : ℕ} {t : Tableau ℚ}

/-! ## Assignments supported on the basis -/

/-- The assignment that gives each basic column a value read off its row and all others zero. -/
def basicAssignment (t : Tableau ℚ) (f : TableauRow ℚ → ℚ) (c : ℕ) : ℚ :=
  ((t.rows.find? (·.basic == c)).map f).getD 0

theorem mem_basis_iff {c : ℕ} :
    c ∈ t.basis ↔ ∃ (i : ℕ) (a : TableauRow ℚ), t.rows[i]? = some a ∧ a.basic = c := by
  rw [basis, List.mem_map]
  constructor
  · rintro ⟨a, ha, hac⟩
    obtain ⟨i, hi⟩ := List.mem_iff_getElem?.mp ha
    exact ⟨i, a, hi, hac⟩
  · rintro ⟨i, a, hi, hac⟩
    exact ⟨a, List.mem_of_getElem? hi, hac⟩

theorem find?_basic_eq (h : CanonicalRows n t.rows) {i : ℕ} {a : TableauRow ℚ}
    (ha : t.rows[i]? = some a) : t.rows.find? (·.basic == a.basic) = some a := by
  have hfound : (t.rows.find? (·.basic == a.basic)).isSome := by
    rw [List.find?_isSome]
    exact ⟨a, List.mem_of_getElem? ha, beq_self_eq_true _⟩
  obtain ⟨b, hb⟩ := Option.isSome_iff_exists.mp hfound
  obtain ⟨k, hk⟩ := List.mem_iff_getElem?.mp (List.mem_of_find?_eq_some hb)
  have hbasic : b.basic = a.basic := by simpa using List.find?_some hb
  obtain rfl := h.index_eq_of_basic_eq hk ha hbasic
  rw [hb, ← hk, ha]

theorem basicAssignment_basic (h : CanonicalRows n t.rows) (f : TableauRow ℚ → ℚ) {i : ℕ}
    {a : TableauRow ℚ} (ha : t.rows[i]? = some a) : t.basicAssignment f a.basic = f a := by
  rw [basicAssignment, find?_basic_eq h ha]
  rfl

theorem basicAssignment_of_notMem (f : TableauRow ℚ → ℚ) {c : ℕ} (hc : c ∉ t.basis) :
    t.basicAssignment f c = 0 := by
  have hnone : t.rows.find? (·.basic == c) = none := by
    rw [List.find?_eq_none]
    intro a ha hac
    exact hc (List.mem_map.mpr ⟨a, ha, by simpa using hac⟩)
  rw [basicAssignment, hnone]
  rfl

/-- A canonical row meets an assignment that is zero outside the basis in its own basic column
only. -/
theorem sum_cells_mul_eq_basic (h : CanonicalRows n t.rows) {u : ℕ → ℚ}
    (hu : ∀ c < n, c ∉ t.basis → u c = 0) {k : ℕ} {b : TableauRow ℚ} (hb : t.rows[k]? = some b) :
    ∑ c ∈ range n, cellAt b.cells c * u c = u b.basic := by
  -- A column is basic in this row, basic in another one and then zero here, or given zero.
  rw [sum_eq_single b.basic]
  · rw [h.unit_self hb, one_mul]
  · intro c hn hc
    by_cases hbasis : c ∈ t.basis
    · obtain ⟨i, a, ha, rfl⟩ := mem_basis_iff.mp hbasis
      have hki : k ≠ i := by
        rintro rfl
        rw [Option.some_inj.mp (ha.symm.trans hb)] at hc
        exact hc rfl
      rw [h.unit_of_ne ha hb hki, zero_mul]
    · rw [hu c (mem_range.mp hn) hbasis, mul_zero]
  · intro hnot
    exact absurd (mem_range.mpr (h.basic_lt hb)) hnot

theorem sum_cells_mul_basicAssignment (h : CanonicalRows n t.rows) (f : TableauRow ℚ → ℚ) {k : ℕ}
    {b : TableauRow ℚ} (hb : t.rows[k]? = some b) :
    ∑ c ∈ range n, cellAt b.cells c * t.basicAssignment f c = f b := by
  rw [sum_cells_mul_eq_basic h (fun c _ hc ↦ basicAssignment_of_notMem f hc) hb,
    basicAssignment_basic h f hb]

theorem sum_objective_mul_basicAssignment (h : t.Canonical n) (f : TableauRow ℚ → ℚ) :
    ∑ c ∈ range n, cellAt t.objective c * t.basicAssignment f c = 0 := by
  refine sum_eq_zero fun c _ ↦ ?_
  by_cases hbasis : c ∈ t.basis
  · obtain ⟨i, a, ha, rfl⟩ := mem_basis_iff.mp hbasis
    rw [h.objective_basic ha, zero_mul]
  · rw [basicAssignment_of_notMem f hbasis, mul_zero]

theorem basicAssignment_nonneg {f : TableauRow ℚ → ℚ} (hf : ∀ row ∈ t.rows, 0 ≤ f row) (c : ℕ) :
    0 ≤ t.basicAssignment f c := by
  rw [basicAssignment]
  cases hfind : t.rows.find? (·.basic == c) with
  | none => exact le_refl 0
  | some a => exact hf a (List.mem_of_find?_eq_some hfind)

/-! ## The basic solution -/

/-- The solution of the rows in which every column outside the basis is zero. -/
def basicSolution (t : Tableau ℚ) : ℕ → ℚ := t.basicAssignment fun row ↦ t.constantOf row.cells

theorem holds_basicSolution (h : t.Canonical n) : t.Holds t.basicSolution := by
  rw [holds_iff_getElem?]
  intro k b hb
  rw [residual_eq_zero_iff, numColumns_eq h.length_objective, basicSolution,
    sum_cells_mul_basicAssignment h.rows _ hb, constantOf, numColumns_eq h.length_objective]

/-- **The basic solution is the only one** that is zero outside the basis. -/
theorem eq_basicSolution_of_holds (h : t.Canonical n) {u : ℕ → ℚ} (hu : t.Holds u)
    (hzero : ∀ c < n, c ∉ t.basis → u c = 0) {c : ℕ} (hc : c < n) : u c = t.basicSolution c := by
  by_cases hbasis : c ∈ t.basis
  · obtain ⟨i, a, ha, rfl⟩ := mem_basis_iff.mp hbasis
    have hsolved := holds_iff_getElem?.mp hu i a ha
    rw [residual_eq_zero_iff, numColumns_eq h.length_objective,
      sum_cells_mul_eq_basic h.rows hzero ha] at hsolved
    rw [basicSolution, basicAssignment_basic h.rows _ ha, constantOf,
      numColumns_eq h.length_objective, hsolved]
  · rw [hzero c hc hbasis, basicSolution, basicAssignment_of_notMem _ hbasis]

theorem residual_objective_basicSolution (h : t.Canonical n) :
    residual t.numColumns t.objective t.basicSolution = t.objectiveValue := by
  rw [residual, objectiveValue, constantOf, basicSolution, numColumns_eq h.length_objective,
    sum_objective_mul_basicAssignment h, sub_zero]

/-! ## The ray of a column -/

/-- The basic solution with column `j` raised to `θ` and the basic columns adjusted to it. -/
def ray (t : Tableau ℚ) (j : ℕ) (θ : ℚ) : ℕ → ℚ :=
  Function.update (t.basicAssignment fun row ↦ t.constantOf row.cells - θ * cellAt row.cells j) j θ

section Ray

variable {j : ℕ}

theorem ray_self (j : ℕ) (θ : ℚ) : t.ray j θ j = θ := Function.update_self ..

theorem ray_of_ne {c : ℕ} (hc : c ≠ j) (θ : ℚ) : t.ray j θ c
    = t.basicAssignment (fun row ↦ t.constantOf row.cells - θ * cellAt row.cells j) c :=
  Function.update_of_ne hc ..

private theorem sum_mul_ray (hj : j < n) (hbasis : j ∉ t.basis) (cells : List ℚ) (θ : ℚ) :
    ∑ c ∈ range n, cellAt cells c * t.ray j θ c
      = ∑ c ∈ range n, cellAt cells c * t.basicAssignment
          (fun row ↦ t.constantOf row.cells - θ * cellAt row.cells j) c
        + cellAt cells j * θ := by
  have hsplit : ∀ c ∈ range n, cellAt cells c * t.ray j θ c
      = cellAt cells c * t.basicAssignment
          (fun row ↦ t.constantOf row.cells - θ * cellAt row.cells j) c
        + if c = j then cellAt cells j * θ else 0 := by
    intro c _
    split_ifs with hc
    · rw [hc, ray_self, basicAssignment_of_notMem _ hbasis, mul_zero, zero_add]
    · rw [ray_of_ne hc, add_zero]
  rw [sum_congr rfl hsplit, sum_add_distrib, sum_ite_eq' (range n) j, if_pos (mem_range.mpr hj)]

theorem holds_ray (h : t.Canonical n) (hj : j < n) (hbasis : j ∉ t.basis) (θ : ℚ) :
    t.Holds (t.ray j θ) := by
  rw [holds_iff_getElem?]
  intro k b hb
  rw [residual_eq_zero_iff, numColumns_eq h.length_objective, sum_mul_ray hj hbasis,
    sum_cells_mul_basicAssignment h.rows _ hb, constantOf, numColumns_eq h.length_objective]
  ring

/-- Along its ray a column earns what the objective row says of it. -/
theorem residual_objective_ray (h : t.Canonical n) (hj : j < n) (hbasis : j ∉ t.basis) (θ : ℚ) :
    residual t.numColumns t.objective (t.ray j θ)
      = t.objectiveValue - cellAt t.objective j * θ := by
  rw [residual, numColumns_eq h.length_objective, sum_mul_ray hj hbasis,
    sum_objective_mul_basicAssignment h, zero_add, objectiveValue, constantOf,
    numColumns_eq h.length_objective]

/-- **No row limits the column.** Where no cell of a column is positive, its ray never leaves the
non-negative assignments. -/
theorem ray_nonneg (hconst : ∀ row ∈ t.rows, 0 ≤ t.constantOf row.cells)
    (hcol : ∀ row ∈ t.rows, cellAt row.cells j ≤ 0) {θ : ℚ} (hθ : 0 ≤ θ) (c : ℕ) :
    0 ≤ t.ray j θ c := by
  rcases eq_or_ne c j with rfl | hc
  · rwa [ray_self]
  · rw [ray_of_ne hc]
    refine basicAssignment_nonneg (fun row hrow ↦ ?_) c
    have hdown : θ * cellAt row.cells j ≤ 0 := mul_nonpos_of_nonneg_of_nonpos hθ (hcol row hrow)
    linarith [hconst row hrow]

end Ray

/-! ## Reading off the values -/

theorem length_structuralValues (form : StandardForm ℚ) (ε : ℚ) (t : Tableau ℚ) :
    (t.structuralValues form ε).length = form.numStructural := by
  have hfold : ∀ (rows : List (TableauRow ℚ)) (values : List ℚ),
      (rows.foldl (fun values row ↦
        values.set row.basic (Scalar.snap ε (t.constantOf row.cells))) values).length
        = values.length := by
    intro rows
    induction rows with
    | nil => intro values; rfl
    | cons row rows ih =>
      intro values
      rw [List.foldl_cons, ih, List.length_set]
  rw [structuralValues, hfold, List.length_replicate]

/-- Writing the rows' values one after the other leaves at a position what the row that is basic
there wrote, or what stood there before. -/
private theorem cellAt_foldl_set (f : TableauRow ℚ → ℚ) {c : ℕ} {rows : List (TableauRow ℚ)}
    (hnodup : (rows.map (·.basic)).Nodup) {values : List ℚ} (hc : c < values.length) :
    cellAt (rows.foldl (fun values row ↦ values.set row.basic (f row)) values) c
      = ((rows.find? (·.basic == c)).map f).getD (cellAt values c) := by
  induction rows generalizing values with
  | nil => rfl
  | cons row rows ih =>
    rw [List.map_cons, List.nodup_cons] at hnodup
    rw [List.foldl_cons, ih hnodup.2 (by rwa [List.length_set]), List.find?_cons]
    by_cases hrow : row.basic = c
    · subst hrow
      have hnone : rows.find? (·.basic == row.basic) = none := by
        rw [List.find?_eq_none]
        intro a ha hac
        exact hnodup.1 (List.mem_map.mpr ⟨a, ha, by simpa using hac⟩)
      rw [hnone, beq_self_eq_true, Option.map_none, Option.getD_none, cellAt_set hc, if_pos rfl]
      rfl
    · have hset : cellAt (values.set row.basic (f row)) c = cellAt values c := by
        rw [cellAt, cellAt, List.getElem?_set_ne hrow]
      rw [hset, beq_false_of_ne hrow]

theorem nodup_basis (h : CanonicalRows n t.rows) : t.basis.Nodup := by
  rw [basis, List.nodup_iff_injective_getElem]
  intro i k hik
  have hi : t.rows[i.val]? = some t.rows[i.val] := List.getElem?_eq_getElem _
  have hk : t.rows[k.val]? = some t.rows[k.val] := List.getElem?_eq_getElem _
  simp only [List.getElem_map] at hik
  exact Fin.ext (h.index_eq_of_basic_eq hi hk hik)

/-- **The reported values** are those of the basic solution, rounded to zero near zero. -/
theorem cellAt_structuralValues (form : StandardForm ℚ) (ε : ℚ) (h : CanonicalRows n t.rows)
    {c : ℕ} (hc : c < form.numStructural) :
    cellAt (t.structuralValues form ε) c = Scalar.snap ε (t.basicSolution c) := by
  have hzero : cellAt (List.replicate form.numStructural (0 : ℚ)) c = 0 := by
    rw [cellAt_eq_getElem (by rwa [List.length_replicate]), List.getElem_replicate]
  have hsnap : Scalar.snap ε (0 : ℚ) = 0 := by
    rw [Scalar.snap]
    split_ifs <;> rfl
  rw [structuralValues, cellAt_foldl_set _ (nodup_basis h) (by rwa [List.length_replicate]),
    basicSolution, basicAssignment]
  cases t.rows.find? (·.basic == c) with
  | none =>
    rw [Option.map_none, Option.map_none, Option.getD_none, Option.getD_none, hsnap]
    exact hzero
  | some a => rfl

end Tableau

/-! ## Multipliers -/

section Multipliers

variable {n : ℕ}

theorem Tableau.Canonical.cellAt_objective_eq_zero {t : Tableau ℚ} (h : t.Canonical n)
    (hworth : ∀ u, t.Holds u → residual t.numColumns t.objective u = 0) (k : ℕ) :
    cellAt t.objective k = 0 := by
  have hconstant : t.objectiveValue = 0 := by
    rw [← residual_objective_basicSolution h]
    exact hworth _ (holds_basicSolution h)
  rcases lt_trichotomy k n with hk | rfl | hk
  · by_cases hbasis : k ∈ t.basis
    · obtain ⟨i, a, ha, rfl⟩ := mem_basis_iff.mp hbasis
      exact h.objective_basic ha
    · have hray := hworth _ (holds_ray h hk hbasis 1)
      rw [residual_objective_ray h hk hbasis, hconstant] at hray
      linarith
  · rwa [objectiveValue, constantOf, numColumns_eq h.length_objective] at hconstant
  · exact cellAt_eq_zero (by rw [h.length_objective]; omega)

/-- **Multipliers.** An objective row that is worth nothing on the solutions of canonical rows is
their combination, each with the cell in its basic column. -/
theorem CanonicalRows.cellAt_eq_sum {rows : List (TableauRow ℚ)} (h : CanonicalRows n rows)
    {obj : List ℚ} (hobj : obj.length = n + 1)
    (hworth : ∀ u, (∀ row ∈ rows, residual n row.cells u = 0) → residual n obj u = 0) (k : ℕ) :
    cellAt obj k = (rows.map fun row ↦ cellAt obj row.basic * cellAt row.cells k).sum := by
  have hcleared : Tableau.Canonical n ⟨rows, priceOut rows obj, .two⟩ :=
    ⟨h, length_priceOut h.length_of_mem hobj, cellAt_priceOut_basic h hobj⟩
  have hzero : cellAt (priceOut rows obj) k = 0 := by
    refine hcleared.cellAt_objective_eq_zero (fun u hu ↦ ?_) k
    rw [Tableau.Holds, Tableau.numColumns_eq hcleared.length_objective] at hu
    rw [Tableau.numColumns_eq hcleared.length_objective, residual_priceOut h.length_of_mem hu hobj]
    exact hworth u hu
  rw [cellAt_priceOut h hobj] at hzero
  exact sub_eq_zero.mp hzero

/-- **Rows are told by their basic columns.** Two rows that are worth the same on the solutions of
canonical rows are the same row if they have the same cells in the basic columns. -/
theorem CanonicalRows.eq_of_cellAt_basic {rows : List (TableauRow ℚ)} (h : CanonicalRows n rows)
    {x y : List ℚ} (hx : x.length = n + 1) (hy : y.length = n + 1)
    (hbasic : ∀ row ∈ rows, cellAt x row.basic = cellAt y row.basic)
    (hworth : ∀ u, (∀ row ∈ rows, residual n row.cells u = 0) → residual n x u = residual n y u) :
    x = y := by
  have hlen : y.length = x.length := hy.trans hx.symm
  have hcell := cellAt_subtractMultiple hlen 1
  refine eq_of_cellAt hx hy fun c _ ↦ ?_
  have hzero : cellAt (subtractMultiple 1 y x) c = 0 := by
    rw [h.cellAt_eq_sum ((length_subtractMultiple hlen 1).trans hx) fun u hu ↦ by
      rw [residual_of_cellAt_eq_sub hcell, hworth u hu, one_mul, sub_self]]
    refine List.sum_eq_zero ?_
    rw [List.forall_mem_map]
    intro row hrow
    rw [hcell, hbasic row hrow, one_mul, sub_self, zero_mul]
  rw [hcell, one_mul] at hzero
  exact sub_eq_zero.mp hzero

end Multipliers

end LinearProgramming
