import LinearProgramming.Proofs.Scalar.Units
import LinearProgramming.Proofs.StandardForm.Layout

/-!
# Exact unit columns

A tableau whose basic columns are exact unit vectors keeps them exact, however the arithmetic rounds
elsewhere. A pivot writes its own column, and every other basic column has a zero in the pivot row,
so that nothing is taken from it. Installing an objective clears the basic columns one by one, each
by the cell that is in the objective row at that moment, and by then the rows above have taken
nothing from that cell, for the same reason.

What is needed of the numbers is that they are finite where they enter a product, and for an
objective these are its cells in the basic columns only. The others may overflow on the way.
-/

open LinearProgramming.Scalar

namespace LinearProgramming

variable {α : Type} [Scalar α]

/-- Rows with `n` columns whose basic columns are exact unit vectors, all of them different. -/
structure UnitRows (n : ℕ) (rows : List (TableauRow α)) : Prop where
  length_cells : ∀ {i : ℕ} {a : TableauRow α}, rows[i]? = some a → a.cells.length = n + 1
  basic_lt : ∀ {i : ℕ} {a : TableauRow α}, rows[i]? = some a → a.basic < n
  /-- A basic column is one in its own row and zero in the others. -/
  unit : ∀ {i k : ℕ} {a b : TableauRow α}, rows[i]? = some a → rows[k]? = some b →
    cellAt b.cells a.basic == if k = i then 1 else 0
  injective : ∀ {i k : ℕ} {a b : TableauRow α}, rows[i]? = some a → rows[k]? = some b →
    a.basic = b.basic → i = k

namespace Tableau

/-- No cell is infinite or undefined. -/
def Finite (t : Tableau α) : Prop := ∀ cells ∈ t.grid, ∀ x ∈ cells, isFinite x = true

/-- A tableau whose basic columns are exact unit vectors, with a zero in the objective row. -/
structure Units (n : ℕ) (t : Tableau α) : Prop where
  rows : UnitRows n t.rows
  length_objective : t.objective.length = n + 1
  objective_basic : ∀ {i : ℕ} {a : TableauRow α}, t.rows[i]? = some a →
    cellAt t.objective a.basic == 0

end Tableau

/-! ## Row operations -/

section Rows

variable [ExactUnits α] {row source : List α} {j k : ℕ}

omit [ExactUnits α] in
theorem cellAt_scaleTo_pivot (hj : j < row.length) : cellAt (scaleTo j row) j = 1 := by
  rw [scaleTo, cellAt_set (by rwa [List.length_map]), if_pos rfl]

theorem cellAt_scaleTo_beq_zero (hk : k < row.length) (hkj : k ≠ j)
    (hfinite : isFinite (cellAt row j)) (hne : ¬cellAt row j == 0) (hzero : cellAt row k == 0) :
    cellAt (scaleTo j row) k == 0 := by
  have hcell : cellAt (scaleTo j row) k = cellAt row k / cellAt row j := by
    rw [scaleTo, cellAt, List.getElem?_set_ne hkj.symm, ← cellAt,
      cellAt_map_of_getElem? (List.getElem?_eq_getElem hk), cellAt_eq_getElem hk]
  rw [hcell]
  exact ExactUnits.zero_div hfinite hne hzero

theorem cellAt_clearColumn_pivot (hlen : source.length = row.length) (hj : j < row.length) :
    cellAt (clearColumn source j row) j == 0 := by
  rw [clearColumn]
  split_ifs with hcell
  · rw [cellAt_set (by rwa [length_subtractMultiple hlen]), if_pos rfl]
    exact ExactUnits.zero_beq_zero
  · simpa [bne] using hcell

theorem cellAt_clearColumn_beq (hlen : source.length = row.length) (hk : k < row.length)
    (hkj : k ≠ j) (hx : isFinite (cellAt row k)) (hfactor : isFinite (cellAt row j))
    (hzero : cellAt source k == 0) : cellAt (clearColumn source j row) k == cellAt row k := by
  rw [clearColumn]
  split_ifs with hcell
  · rw [cellAt, List.getElem?_set_ne hkj.symm, ← cellAt, cellAt_subtractMultiple_of_lt hlen _ hk]
    exact ExactUnits.sub_mul_zero hx hfactor hzero
  · exact ExactUnits.refl hx

end Rows

/-! ## Installing an objective -/

section PriceOut

variable [ExactUnits α] {n c : ℕ} {rows : List (TableauRow α)} {obj : List α}

/-- One step of clearing an objective row. -/
def clearBasic (obj : List α) (row : TableauRow α) : List α :=
  if cellAt obj row.basic != 0 then subtractMultiple (cellAt obj row.basic) row.cells obj else obj

omit [ExactUnits α] in
theorem priceOut_cons (row : TableauRow α) (rows : List (TableauRow α)) (obj : List α) :
    priceOut (row :: rows) obj = priceOut rows (clearBasic obj row) := rfl

omit [ExactUnits α] in
theorem length_clearBasic {row : TableauRow α} (hlen : row.cells.length = obj.length) :
    (clearBasic obj row).length = obj.length := by
  rw [clearBasic]
  split_ifs
  · exact length_subtractMultiple hlen _
  · rfl

theorem cellAt_clearBasic_basic {row : TableauRow α} (hlen : row.cells.length = obj.length)
    (hlt : row.basic < obj.length) (hone : cellAt row.cells row.basic == 1)
    (hfactor : isFinite (cellAt obj row.basic)) :
    cellAt (clearBasic obj row) row.basic == 0 := by
  rw [clearBasic]
  split_ifs with hcell
  · rw [cellAt_subtractMultiple_of_lt hlen _ hlt]
    exact ExactUnits.sub_mul_one hfactor hone
  · simpa [bne] using hcell

theorem cellAt_clearBasic_beq {row : TableauRow α} (hlen : row.cells.length = obj.length)
    (hc : c < obj.length) (hx : isFinite (cellAt obj c))
    (hfactor : isFinite (cellAt obj row.basic)) (hzero : cellAt row.cells c == 0) :
    cellAt (clearBasic obj row) c == cellAt obj c := by
  rw [clearBasic]
  split_ifs with hcell
  · rw [cellAt_subtractMultiple_of_lt hlen _ hc]
    exact ExactUnits.sub_mul_zero hx hfactor hzero
  · exact ExactUnits.refl hx

omit [ExactUnits α] in
theorem UnitRows.tail {row : TableauRow α} (h : UnitRows n (row :: rows)) : UnitRows n rows where
  length_cells {i _} ha := h.length_cells (i := i + 1) ha
  basic_lt {i _} ha := h.basic_lt (i := i + 1) ha
  unit {i k _ _} ha hb := by
    have hunit := h.unit (i := i + 1) (k := k + 1) ha hb
    simpa only [Nat.add_right_cancel_iff] using hunit
  injective {i k _ _} ha hb hbasic := by
    have heq := h.injective (i := i + 1) (k := k + 1) ha hb hbasic
    omega

omit [ExactUnits α] in
theorem UnitRows.unit_self (h : UnitRows n rows) {i : ℕ} {a : TableauRow α}
    (ha : rows[i]? = some a) : cellAt a.cells a.basic == 1 := by
  simpa using h.unit ha ha

omit [ExactUnits α] in
theorem UnitRows.unit_of_ne (h : UnitRows n rows) {i k : ℕ} {a b : TableauRow α}
    (ha : rows[i]? = some a) (hb : rows[k]? = some b) (hne : k ≠ i) :
    cellAt b.cells a.basic == 0 := by
  simpa [hne] using h.unit ha hb

private theorem isFinite_clearBasic {row : TableauRow α} (h : UnitRows n (row :: rows))
    (hobj : obj.length = n + 1)
    (hfinite : ∀ a ∈ row :: rows, isFinite (cellAt obj a.basic) = true) :
    ∀ a ∈ rows, isFinite (cellAt (clearBasic obj row) a.basic) = true := by
  intro a ha
  obtain ⟨i, hi⟩ := List.mem_iff_getElem?.mp ha
  have hlen : row.cells.length = obj.length := by rw [h.length_cells (i := 0) rfl, hobj]
  have hlt := h.basic_lt (i := i + 1) hi
  have hzero := h.unit_of_ne (i := i + 1) (k := 0) hi rfl (Nat.succ_ne_zero i).symm
  have hx := hfinite a (List.mem_cons_of_mem _ ha)
  exact ExactUnits.isFinite_of_beq
    (cellAt_clearBasic_beq hlen (by omega) hx (hfinite row List.mem_cons_self) hzero) hx

theorem cellAt_priceOut_beq (h : UnitRows n rows) (hobj : obj.length = n + 1)
    (hfinite : ∀ a ∈ rows, isFinite (cellAt obj a.basic) = true) (hc : c < n)
    (hx : isFinite (cellAt obj c)) (hzero : ∀ a ∈ rows, (cellAt a.cells c == 0) = true) :
    cellAt (priceOut rows obj) c == cellAt obj c := by
  induction rows generalizing obj with
  | nil => exact ExactUnits.refl hx
  | cons row rows ih =>
    have hlen : row.cells.length = obj.length := by rw [h.length_cells (i := 0) rfl, hobj]
    have hstep := cellAt_clearBasic_beq hlen (by omega) hx (hfinite row List.mem_cons_self)
      (hzero row List.mem_cons_self)
    rw [priceOut_cons]
    refine ExactUnits.trans (ih h.tail ((length_clearBasic hlen).trans hobj)
      (isFinite_clearBasic h hobj hfinite) (ExactUnits.isFinite_of_beq hstep hx)
      fun a ha ↦ hzero a (List.mem_cons_of_mem _ ha)) hstep

/-- **Every basic column is cleared exactly**: by its own row, and no row after that takes anything
from it. -/
theorem cellAt_priceOut_basic_beq (h : UnitRows n rows) (hobj : obj.length = n + 1)
    (hfinite : ∀ a ∈ rows, isFinite (cellAt obj a.basic) = true) :
    ∀ a ∈ rows, (cellAt (priceOut rows obj) a.basic == 0) = true := by
  induction rows generalizing obj with
  | nil => simp
  | cons row rows ih =>
    have hlen : row.cells.length = obj.length := by rw [h.length_cells (i := 0) rfl, hobj]
    have hlt := h.basic_lt (i := 0) rfl
    have hrest := isFinite_clearBasic h hobj hfinite
    have hlen' : (clearBasic obj row).length = n + 1 := (length_clearBasic hlen).trans hobj
    rw [priceOut_cons]
    intro a ha
    rcases List.mem_cons.mp ha with rfl | ha
    · have hcleared := cellAt_clearBasic_basic hlen (by omega) (h.unit_self (i := 0) rfl)
        (hfinite a List.mem_cons_self)
      refine ExactUnits.trans (cellAt_priceOut_beq h.tail hlen' hrest hlt
        (ExactUnits.isFinite_of_beq hcleared ExactUnits.isFinite_zero) fun b hb ↦ ?_) hcleared
      obtain ⟨i, hi⟩ := List.mem_iff_getElem?.mp hb
      exact h.unit_of_ne (i := 0) (k := i + 1) rfl hi (Nat.succ_ne_zero i)
    · exact ih h.tail hlen' hrest a ha

end PriceOut

namespace Tableau

variable {n : ℕ} {t : Tableau α}

/-! ## Pivots -/

section Pivot

variable {i j k : ℕ} {a b : TableauRow α}

theorem Finite.isFinite_cellAt (h : t.Finite) (ha : t.rows[i]? = some a)
    (hk : k < a.cells.length) : isFinite (cellAt a.cells k) = true := by
  rw [cellAt_eq_getElem hk]
  exact (forall_mem_grid_iff.mp h).1 a (List.mem_of_getElem? ha) _ (List.getElem_mem hk)

theorem Finite.isFinite_objective (h : t.Finite) (hk : k < t.objective.length) :
    isFinite (cellAt t.objective k) = true := by
  rw [cellAt_eq_getElem hk]
  exact (forall_mem_grid_iff.mp h).2 _ (List.getElem_mem hk)

theorem rows_pivot_cases (ha : t.rows[i]? = some a) (hb : (t.pivot i j).rows[k]? = some b) :
    (k = i ∧ b.basic = j ∧ b.cells = scaleTo j a.cells)
      ∨ (k ≠ i ∧ ∃ b', t.rows[k]? = some b' ∧ b.basic = b'.basic
        ∧ b.cells = clearColumn (scaleTo j a.cells) j b'.cells) := by
  have hrow : t.row i = a.cells := by
    rw [row, ha]
    rfl
  rw [pivot, List.getElem?_mapIdx, Option.map_eq_some_iff, hrow] at hb
  obtain ⟨b', hb', rfl⟩ := hb
  by_cases hki : k = i
  · rw [if_pos hki]
    exact .inl ⟨hki, rfl, rfl⟩
  · rw [if_neg hki]
    exact .inr ⟨hki, b', hb', rfl, rfl⟩

theorem objective_pivot_eq (ha : t.rows[i]? = some a) :
    (t.pivot i j).objective = clearColumn (scaleTo j a.cells) j t.objective := by
  rw [pivot, row, ha]
  rfl

/-- A basic column of another row is not the pivot column, since it has a zero in the pivot row. -/
theorem Units.basic_ne (h : t.Units n) (ha : t.rows[i]? = some a) (hne : ¬cellAt a.cells j == 0)
    (hki : k ≠ i) (hb : t.rows[k]? = some b) : b.basic ≠ j := by
  rintro rfl
  exact hne (h.rows.unit_of_ne hb ha hki.symm)

private theorem Units.length_scaleTo_eq (h : t.Units n) (ha : t.rows[i]? = some a)
    {cells : List α} (hlen : cells.length = n + 1) :
    (scaleTo j a.cells).length = cells.length := by
  rw [length_scaleTo, h.rows.length_cells ha, hlen]

variable [ExactUnits α]

private theorem Units.cellAt_scaleTo_basic (h : t.Units n) (hfinite : t.Finite)
    (ha : t.rows[i]? = some a) (hj : j < n) (hne : ¬cellAt a.cells j == 0) (hki : k ≠ i)
    (hb : t.rows[k]? = some b) : cellAt (scaleTo j a.cells) b.basic == 0 := by
  have hlen := h.rows.length_cells ha
  have hlt := h.rows.basic_lt hb
  exact cellAt_scaleTo_beq_zero (by omega) (h.basic_ne ha hne hki hb)
    (hfinite.isFinite_cellAt ha (by omega)) hne (h.rows.unit_of_ne hb ha hki.symm)

/-- In the rows, the entering column becomes the unit vector of the pivot row, and every other basic
column stays what it is. -/
private theorem Units.unit_pivot (h : t.Units n) (hfinite : t.Finite) (ha : t.rows[i]? = some a)
    (hj : j < n) (hne : ¬cellAt a.cells j == 0) {l : ℕ} {c : TableauRow α}
    (hc : (t.pivot i j).rows[l]? = some c) (hb : (t.pivot i j).rows[k]? = some b) :
    cellAt b.cells c.basic == if k = l then 1 else 0 := by
  have hlen := h.rows.length_cells ha
  -- Which of the two rows is the pivot row: the one whose column is asked about, the one the cell
  -- is in, both or neither.
  rcases rows_pivot_cases ha hc with ⟨rfl, hbasic, -⟩ | ⟨hli, c', hc', hbasic, -⟩ <;>
    rcases rows_pivot_cases ha hb with ⟨rfl, -, hcells⟩ | ⟨hki, b', hb', -, hcells⟩ <;>
    rw [hbasic, hcells]
  · rw [if_pos rfl, cellAt_scaleTo_pivot (by omega)]
    exact ExactUnits.one_beq_one
  · have hlen' := h.rows.length_cells hb'
    rw [if_neg hki]
    exact cellAt_clearColumn_pivot (h.length_scaleTo_eq ha hlen') (by omega)
  · rw [if_neg hli.symm]
    exact h.cellAt_scaleTo_basic hfinite ha hj hne hli hc'
  · have hlen' := h.rows.length_cells hb'
    have hlt := h.rows.basic_lt hc'
    exact ExactUnits.trans (cellAt_clearColumn_beq (h.length_scaleTo_eq ha hlen') (by omega)
      (h.basic_ne ha hne hli hc') (hfinite.isFinite_cellAt hb' (by omega))
      (hfinite.isFinite_cellAt hb' (by omega))
      (h.cellAt_scaleTo_basic hfinite ha hj hne hli hc')) (h.rows.unit hc' hb')

/-- **A pivot keeps the units exact.** -/
theorem Units.pivot (h : t.Units n) (hfinite : t.Finite) (ha : t.rows[i]? = some a) (hj : j < n)
    (hne : ¬cellAt a.cells j == 0) : (t.pivot i j).Units n where
  rows := by
    refine ⟨fun hb ↦ ?_, fun hb ↦ ?_, h.unit_pivot hfinite ha hj hne, fun hc hb heq ↦ ?_⟩
    · rcases rows_pivot_cases ha hb with ⟨-, -, hcells⟩ | ⟨-, b', hb', -, hcells⟩
      · rw [hcells, length_scaleTo, h.rows.length_cells ha]
      · rw [hcells, length_clearColumn (h.length_scaleTo_eq ha (h.rows.length_cells hb')),
          h.rows.length_cells hb']
    · rcases rows_pivot_cases ha hb with ⟨-, hbasic, -⟩ | ⟨-, b', hb', hbasic, -⟩
      · rwa [hbasic]
      · rw [hbasic]
        exact h.rows.basic_lt hb'
    · rcases rows_pivot_cases ha hc with ⟨rfl, hbasic, -⟩ | ⟨hli, c', hc', hbasic, -⟩ <;>
        rcases rows_pivot_cases ha hb with ⟨rfl, hbasic', -⟩ | ⟨hki, b', hb', hbasic', -⟩ <;>
        rw [hbasic, hbasic'] at heq
      · exact absurd heq.symm (h.basic_ne ha hne hki hb')
      · exact absurd heq (h.basic_ne ha hne hli hc')
      · exact h.rows.injective hc' hb' heq
  length_objective := by
    rw [objective_pivot_eq ha, length_clearColumn (h.length_scaleTo_eq ha h.length_objective),
      h.length_objective]
  objective_basic {k b} hb := by
    have hlen := h.length_objective
    rw [objective_pivot_eq ha]
    rcases rows_pivot_cases ha hb with ⟨-, hbasic, -⟩ | ⟨hki, b', hb', hbasic, -⟩ <;> rw [hbasic]
    · exact cellAt_clearColumn_pivot (h.length_scaleTo_eq ha hlen) (by omega)
    · have hlt := h.rows.basic_lt hb'
      exact ExactUnits.trans (cellAt_clearColumn_beq (h.length_scaleTo_eq ha hlen) (by omega)
        (h.basic_ne ha hne hki hb') (hfinite.isFinite_objective (by omega))
        (hfinite.isFinite_objective (by omega))
        (h.cellAt_scaleTo_basic hfinite ha hj hne hki hb')) (h.objective_basic hb')

end Pivot

/-! ## Objectives -/

section Objective

variable [ExactUnits α] {costs : List α} {p : Problem α}

/-- **Any finite objective can be installed**, whatever the objective row held before. -/
theorem units_withCosts (h : UnitRows n t.rows) (hcosts : costs.length = n)
    (hfinite : ∀ x ∈ costs, isFinite x = true) : (t.withCosts costs).Units n := by
  have hlen : (costs.map (-·) ++ [0]).length = n + 1 := by
    rw [List.length_append, List.length_map, hcosts, List.length_singleton]
  have hrows : ∀ a ∈ t.rows, a.cells.length = n + 1 := by
    intro a ha
    obtain ⟨i, hi⟩ := List.mem_iff_getElem?.mp ha
    exact h.length_cells hi
  have hcells : ∀ a ∈ t.rows, isFinite (cellAt (costs.map (-·) ++ [0]) a.basic) = true := by
    intro a ha
    obtain ⟨i, hi⟩ := List.mem_iff_getElem?.mp ha
    have hlt : a.basic < costs.length := hcosts ▸ h.basic_lt hi
    rw [cellAt_append_left (by rwa [List.length_map]),
      cellAt_map_of_getElem? (List.getElem?_eq_getElem hlt)]
    exact ExactUnits.isFinite_neg (hfinite _ (List.getElem_mem hlt))
  exact ⟨h, length_priceOut hrows hlen, fun ha ↦
    cellAt_priceOut_basic_beq h hlen hcells _ (List.mem_of_getElem? ha)⟩

omit [ExactUnits α] in
theorem forall_mem_phaseOneCosts {P : α → Prop} (hzero : P 0) (hone : P 1)
    (hneg : ∀ x, P x → P (-x)) (form : StandardForm α) : ∀ x ∈ phaseOneCosts form, P x := by
  rw [phaseOneCosts]
  intro x hx
  obtain ⟨j, -, rfl⟩ := List.mem_map.mp hx
  split_ifs
  · exact hneg 1 hone
  · exact hzero

omit [ExactUnits α] in
theorem forall_mem_phaseTwoCosts {P : α → Prop} (hzero : P 0) (hneg : ∀ x, P x → P (-x))
    (h : ∀ x ∈ p.objective, P x) : ∀ x ∈ phaseTwoCosts (.ofWellFormed p), P x := by
  intro x hx
  rcases List.mem_append.mp hx with hx | hx
  · rw [StandardForm.ofWellFormed] at hx
    revert hx
    cases p.sense with
    | maximize => exact h x
    | minimize =>
      intro hx
      obtain ⟨y, hy, rfl⟩ := List.mem_map.mp hx
      exact hneg y (h y hy)
  · rw [List.eq_of_mem_replicate hx]
    exact hzero

theorem isFinite_phaseOneCosts (form : StandardForm α) :
    ∀ x ∈ phaseOneCosts form, isFinite x = true :=
  forall_mem_phaseOneCosts (P := fun x ↦ isFinite x = true) ExactUnits.isFinite_zero
    ExactUnits.isFinite_one (fun _ ↦ ExactUnits.isFinite_neg) form

theorem isFinite_phaseTwoCosts (hp : p.WellFormed) :
    ∀ x ∈ phaseTwoCosts (.ofWellFormed p), isFinite x = true :=
  forall_mem_phaseTwoCosts (P := fun x ↦ isFinite x = true) ExactUnits.isFinite_zero
    (fun _ ↦ ExactUnits.isFinite_neg) hp.isFinite_objective

omit [ExactUnits α] in
theorem length_phaseTwoCosts_of {form : StandardForm α}
    (hobjective : form.objective.length = form.numStructural)
    (hle : form.numStructural ≤ form.numColumns) :
    (phaseTwoCosts form).length = form.numColumns := by
  rw [phaseTwoCosts, List.length_append, List.length_replicate, hobjective,
    Nat.add_sub_cancel' hle]

omit [ExactUnits α] in
theorem length_phaseTwoCosts (p : Problem α) : (phaseTwoCosts (.ofWellFormed p)).length
    = (StandardForm.ofWellFormed p).numColumns := by
  refine length_phaseTwoCosts_of ?_ ?_
  · rw [StandardForm.length_objective, StandardForm.numStructural_ofWellFormed]
  · rw [StandardForm.numStructural_ofWellFormed]
    exact StandardForm.numVariables_le_numColumns p

theorem Units.installPhaseTwo (hp : p.WellFormed)
    (h : t.Units (StandardForm.ofWellFormed p).numColumns) :
    (t.installPhaseTwo (.ofWellFormed p)).Units (StandardForm.ofWellFormed p).numColumns := by
  obtain ⟨hrows, hlength, hobjective⟩ :=
    units_withCosts h.rows (length_phaseTwoCosts p) (isFinite_phaseTwoCosts hp)
  exact ⟨hrows, hlength, hobjective⟩

theorem units_initial (hp : p.WellFormed) : (Tableau.initial (.ofWellFormed p)).Units
    (StandardForm.ofWellFormed p).numColumns := by
  have hrows : UnitRows (StandardForm.ofWellFormed p).numColumns
      ((StandardForm.ofWellFormed p).rows.map fun row ↦
        { basic := row.basic, cells := row.coefficients ++ [row.rhs] }) := by
    refine ⟨fun ha ↦ ?_, fun ha ↦ ?_, fun {i k _ _} ha hb ↦ ?_, fun ha hb hbasic ↦ ?_⟩
    · rw [List.getElem?_map, Option.map_eq_some_iff] at ha
      obtain ⟨placed, hplaced, rfl⟩ := ha
      rw [List.length_append, List.length_singleton,
        StandardForm.length_of_mem_rows hp (List.mem_of_getElem? hplaced)]
    · rw [List.getElem?_map, Option.map_eq_some_iff] at ha
      obtain ⟨placed, hplaced, rfl⟩ := ha
      exact (StandardForm.basic_placed_lt hplaced).2
    · rw [List.getElem?_map, Option.map_eq_some_iff] at ha hb
      obtain ⟨placed, hplaced, rfl⟩ := ha
      obtain ⟨placed', hplaced', rfl⟩ := hb
      rw [cellAt_append_left (by
        rw [StandardForm.length_of_mem_rows hp (List.mem_of_getElem? hplaced')]
        exact (StandardForm.basic_placed_lt hplaced).2),
        StandardForm.cellAt_placed_basic hp hplaced hplaced']
      split_ifs
      · exact ExactUnits.one_beq_one
      · exact ExactUnits.zero_beq_zero
    · rw [List.getElem?_map, Option.map_eq_some_iff] at ha hb
      obtain ⟨placed, hplaced, rfl⟩ := ha
      obtain ⟨placed', hplaced', rfl⟩ := hb
      exact StandardForm.basic_placed_injective hplaced hplaced' hbasic
  have hone : (phaseOneCosts (StandardForm.ofWellFormed p)).length
      = (StandardForm.ofWellFormed p).numColumns := by
    rw [phaseOneCosts, List.length_map, List.length_range]
  rw [initial]
  split_ifs
  · obtain ⟨hunits, hlength, hobjective⟩ :=
      units_withCosts (t := ⟨_, [], .two⟩) hrows hone (isFinite_phaseOneCosts _)
    exact ⟨hunits, hlength, hobjective⟩
  · obtain ⟨hunits, hlength, hobjective⟩ := units_withCosts (t := ⟨_, [], .two⟩) hrows
      (length_phaseTwoCosts p) (isFinite_phaseTwoCosts hp)
    exact ⟨hunits, hlength, hobjective⟩

end Objective

end Tableau

end LinearProgramming
