import LinearProgramming.Proofs.Run.Represents

/-!
# Solves with tolerance zero

With tolerance zero the leaving row really has the smallest ratio, so no pivot of either phase makes
a constant negative. The pivots that exchange artificial variables follow no ratio, but they are
made on rows whose constant is zero, and then they change no constant at all.

## Idle rows

After phase one every artificial variable that is still basic is zero. Where nothing can replace it,
its row is zero in every genuine column too: the row is *idle*. No later pivot is made on an idle
row and none changes it, since only genuine columns enter from then on. So the row of an artificial
variable that is basic in phase two never moves.
-/

open Finset

namespace LinearProgramming

namespace Tableau

/-- No constant of a constraint row is negative. -/
def Nonnegative (form : StandardForm ℚ) (t : Tableau ℚ) : Prop :=
  ∀ ⦃i : ℕ⦄ ⦃a : TableauRow ℚ⦄, t.rows[i]? = some a → 0 ≤ cellAt a.cells form.numColumns

/-- The rows of basic artificial variables have constant zero, and those not among the `pending`
ones are zero in every genuine column as well. -/
def Idle (form : StandardForm ℚ) (pending : List ℕ) (t : Tableau ℚ) : Prop :=
  ∀ ⦃i : ℕ⦄ ⦃a : TableauRow ℚ⦄, t.rows[i]? = some a → form.isArtificial a.basic = true →
    cellAt a.cells form.numColumns = 0
      ∧ (i ∉ pending → ∀ j < form.numColumns, form.isArtificial j = false → cellAt a.cells j = 0)

variable {form : StandardForm ℚ} {t : Tableau ℚ}

/-! ## Pivots -/

section Pivot

variable {i j : ℕ} {a : TableauRow ℚ}

theorem Represents.cellAt_pivotedRow (h : t.Represents form) (ha : t.rows[i]? = some a)
    (hne : cellAt a.cells j ≠ 0) {k : ℕ} (hki : k ≠ i) {b : TableauRow ℚ}
    (hb : t.rows[k]? = some b) (c : ℕ) :
    cellAt (pivotedRow a i j k b).cells c
      = cellAt b.cells c - cellAt b.cells j * (cellAt a.cells c / cellAt a.cells j) :=
  cellAt_pivotedRow_of_ne hki
    (by rw [h.canonical.rows.length_cells ha, h.canonical.rows.length_cells hb]) hne c

/-- **The smallest ratio keeps the constants non-negative**, and nothing else does. Where another
row's cell is positive its constant loses the product of that cell with the ratio of the pivot row,
and elsewhere it loses nothing. -/
theorem nonnegative_pivot_iff (h : t.Represents form) (hnonneg : t.Nonnegative form)
    (ha : t.rows[i]? = some a) (hpos : 0 < cellAt a.cells j) : (t.pivot i j).Nonnegative form
      ↔ ∀ b ∈ t.rows, 0 < cellAt b.cells j → t.ratio j a ≤ t.ratio j b := by
  have hratio : 0 ≤ cellAt a.cells form.numColumns / cellAt a.cells j :=
    div_nonneg (hnonneg ha) hpos.le
  have hkept : ∀ {b : TableauRow ℚ}, 0 < cellAt b.cells j →
      (0 ≤ cellAt b.cells form.numColumns
          - cellAt b.cells j * (cellAt a.cells form.numColumns / cellAt a.cells j)
        ↔ t.ratio j a ≤ t.ratio j b) := by
    intro b hb
    rw [sub_nonneg, mul_comm, ← le_div_iff₀ hb, ratio, ratio, constantOf, constantOf,
      h.numColumns_eq]
  constructor
  · intro hpivot b hb hb'
    obtain ⟨k, hk⟩ := List.mem_iff_getElem?.mp hb
    rcases eq_or_ne i k with rfl | hki
    · rw [Option.some_inj.mp (ha.symm.trans hk)]
    · have hconst := hpivot (a := pivotedRow a i j k b) (by rw [getElem?_rows_pivot ha, hk]; rfl)
      rw [h.cellAt_pivotedRow ha hpos.ne' hki.symm hk] at hconst
      exact (hkept hb').mp hconst
  · intro hfirst k b' hb'
    obtain ⟨b, hb, rfl⟩ := exists_of_getElem?_rows_pivot ha hb'
    rcases eq_or_ne i k with rfl | hki
    · rwa [pivotedRow_self, cellAt_scaleTo hpos.ne']
    · rw [h.cellAt_pivotedRow ha hpos.ne' hki.symm hb]
      rcases le_or_gt (cellAt b.cells j) 0 with hle | hgt
      · have hloss := mul_nonpos_of_nonpos_of_nonneg hle hratio
        linarith [hnonneg hb]
      · exact (hkept hgt).mpr (hfirst b (List.mem_of_getElem? hb) hgt)

/-- A pivot in a genuine column leaves idle rows as they are, and its own row is no longer one of an
artificial variable. -/
theorem Idle.pivot {pending : List ℕ} (h : t.Represents form) (hidle : t.Idle form pending)
    (ha : t.rows[i]? = some a) (hne : cellAt a.cells j ≠ 0) (hjn : j < form.numColumns)
    (hj : form.isArtificial j = false)
    (hconst : ∀ {k : ℕ} {b : TableauRow ℚ}, t.rows[k]? = some b →
      form.isArtificial b.basic = true → k ∈ pending →
        cellAt b.cells j * cellAt a.cells form.numColumns = 0) :
    (t.pivot i j).Idle form (pending.filter (· ≠ i)) := by
  intro k b' hb' hart
  obtain ⟨b, hb, rfl⟩ := exists_of_getElem?_rows_pivot ha hb'
  rcases eq_or_ne i k with rfl | hki
  · rw [pivotedRow_self, hj] at hart
    exact absurd hart Bool.false_ne_true
  · rw [pivotedRow_of_ne hki.symm] at hart
    obtain ⟨hzero, hgenuine⟩ := hidle hb hart
    have hcell := h.cellAt_pivotedRow ha hne hki.symm hb
    constructor
    -- What the constant loses is a multiple of the row's cell in the pivot column, which is zero in
    -- an idle row, and of the pivot row's own constant, which is zero while rows are pending.
    · rw [hcell, hzero, zero_sub, neg_eq_zero, ← mul_div_assoc]
      by_cases hk : k ∈ pending
      · rw [hconst hb hart hk, zero_div]
      · rw [hgenuine hk j hjn hj, zero_mul, zero_div]
    · intro hk c hc hc'
      have hk' : k ∉ pending := by
        intro hmem
        exact hk (List.mem_filter.mpr ⟨hmem, by simpa using hki.symm⟩)
      rw [hcell, hgenuine hk' c hc hc', hgenuine hk' j hjn hj, zero_mul, sub_zero]

theorem Nonnegative.pivot_of_eq_zero (h : t.Represents form) (hnonneg : t.Nonnegative form)
    (ha : t.rows[i]? = some a) (hne : cellAt a.cells j ≠ 0)
    (hzero : cellAt a.cells form.numColumns = 0) : (t.pivot i j).Nonnegative form := by
  intro k b' hb'
  obtain ⟨b, hb, rfl⟩ := exists_of_getElem?_rows_pivot ha hb'
  rcases eq_or_ne i k with rfl | hki
  · rw [pivotedRow_self, cellAt_scaleTo hne, hzero, zero_div]
  · rw [h.cellAt_pivotedRow ha hne hki.symm hb, hzero, zero_div, mul_zero, sub_zero]
    exact hnonneg hb

end Pivot

/-! ## Basic artificial variables -/

theorem Nonnegative.constantOf_nonneg (h : t.Represents form) (hnonneg : t.Nonnegative form) :
    ∀ row ∈ t.rows, 0 ≤ t.constantOf row.cells := by
  intro row hrow
  obtain ⟨i, hi⟩ := List.mem_iff_getElem?.mp hrow
  rw [constantOf, h.numColumns_eq]
  exact hnonneg hi

theorem Nonnegative.basicSolution_nonneg (h : t.Represents form) (hnonneg : t.Nonnegative form)
    (c : ℕ) : 0 ≤ t.basicSolution c :=
  basicAssignment_nonneg (hnonneg.constantOf_nonneg h) c

theorem Represents.basicSolution_basic (h : t.Represents form) {i : ℕ} {a : TableauRow ℚ}
    (ha : t.rows[i]? = some a) :
    t.basicSolution a.basic = cellAt a.cells form.numColumns := by
  rw [basicSolution, basicAssignment_basic h.canonical.rows _ ha, constantOf, h.numColumns_eq]

theorem Idle.mono {rows rows' : List ℕ} (h : t.Idle form rows) (hsub : rows ⊆ rows') :
    t.Idle form rows' := by
  intro k b hb hart
  obtain ⟨hzero, hgenuine⟩ := h hb hart
  exact ⟨hzero, fun hk ↦ hgenuine fun hmem ↦ hk (hsub hmem)⟩

theorem Idle.tail {i : ℕ} {rows : List ℕ} (hrep : t.Represents form)
    (h : t.Idle form (i :: rows))
    (hkeep : ∀ {a : TableauRow ℚ}, t.rows[i]? = some a → form.isArtificial a.basic = true →
      t.replacementColumn form 0 i = none) : t.Idle form rows := by
  intro k b hb hart
  obtain ⟨hzero, hgenuine⟩ := h hb hart
  refine ⟨hzero, fun hk c hc hc' ↦ ?_⟩
  rcases eq_or_ne i k with rfl | hki
  · have hcell := abs_cell_le_of_replacementColumn_eq_none (hkeep hb hart)
      (hrep.numColumns_eq.symm ▸ hc) hc'
    rw [cell, row_eq hb] at hcell
    exact abs_nonpos_iff.mp hcell
  · refine hgenuine (fun hmem ↦ ?_) c hc hc'
    rcases List.mem_cons.mp hmem with rfl | hmem
    · exact hki rfl
    · exact hk hmem

/-! ## The first tableau -/

section Initial

variable {p : Problem ℚ}

theorem nonnegative_initial (hp : p.WellFormed) :
    (initial (.ofWellFormed p)).Nonnegative (.ofWellFormed p) := by
  intro i a ha
  rw [rows_initial] at ha
  obtain ⟨row, placed, hi, hplaced, hrhs, hcells, -⟩ := exists_of_getElem?_laidOut ha
  rw [hcells, cellAt_append_singleton (StandardForm.length_placed hp hi hplaced), hrhs]
  exact StandardForm.rhs_normalRow_nonneg hi

theorem idle_initial (h : (StandardForm.ofWellFormed p).hasArtificial = false) :
    (initial (.ofWellFormed p)).Idle (.ofWellFormed p) [] := by
  intro i a ha hart
  rw [rows_initial] at ha
  obtain ⟨row, placed, hi, -, -, -, hbasic⟩ := exists_of_getElem?_laidOut ha
  have hnone : ¬row.relation.hasArtificial = true := fun hrow ↦ by
    have hlt := Problem.artificialOf_lt hi hrow
    have hle := Problem.le_artificialOf (p := p) (i := i)
    rw [StandardForm.hasArtificial, decide_eq_false_iff_not] at h
    exact h (by change 0 < p.numArtificial; omega)
  rw [hbasic, if_neg hnone, StandardForm.isArtificial_auxiliaryOf hi
    (by rw [Relation.eq_le_of_not_hasArtificial hnone]; rfl)] at hart
  exact absurd hart Bool.false_ne_true

end Initial

end Tableau

/-! ## Along a solve -/

/-- The rows whose artificial variables may yet be exchanged; in phase one there is nothing to say
of them. -/
def Stage.pending : Stage → Option (List ℕ)
  | .optimizing .one => none
  | .exchanging rows => some rows
  | .optimizing .two => some []

/-- What an exact solve keeps besides the problem it states. -/
structure Tableau.Exact (form : StandardForm ℚ) (stage : Stage) (t : Tableau ℚ) : Prop where
  nonnegative : t.Nonnegative form
  idle : ∀ {rows : List ℕ}, stage.pending = some rows → t.Idle form rows

namespace Tableau.Exact

variable {form : StandardForm ℚ} {t : Tableau ℚ} {i j : ℕ} {rows : List ℕ} {phase : Phase}

/-- A column that enters in phase two is genuine, so idle rows are left alone. -/
theorem pivot (hrep : t.Represents form) (hphase : t.phase = phase)
    (h : t.Exact form (.optimizing phase)) (hj : t.enteringColumn form 0 = some j)
    (hi : t.leavingRow 0 j = some i) : (t.pivot i j).Exact form (.optimizing phase) := by
  obtain ⟨a, ha, hpos, hfirst⟩ := exists_of_leavingRow_eq_some hi
  have henters := enters_of_enteringColumn hj
  refine ⟨(nonnegative_pivot_iff hrep h.nonnegative ha hpos).mpr
    fun b hb hb' ↦ (hfirst rfl b hb hb').ratio_le, ?_⟩
  intro rows hrows
  cases phase with
  | one => cases hrows
  | two =>
    cases hrows
    exact (h.idle rfl).pivot hrep ha hpos.ne' (hrep.numColumns_eq ▸ henters.lt_numColumns)
      (henters.isArtificial_eq_false hphase) fun _ _ hmem ↦ absurd hmem List.not_mem_nil

theorem turn (hrep : t.Represents form) (hphase : t.phase = .one)
    (h : t.Exact form (.optimizing .one)) (hzero : ¬0 < Scalar.abs t.objectiveValue) :
    t.Exact form (.exchanging (List.range t.numRows)) := by
  refine ⟨h.nonnegative, fun hrows ↦ ?_⟩
  cases hrows
  have hworth : form.worth .one t.basicSolution = 0 := by
    rw [← hphase, ← hrep.objectiveValue_eq]
    rw [Scalar.abs_eq, abs_pos, not_not] at hzero
    exact hzero
  intro k b hb hart
  refine ⟨?_, fun hk ↦ ?_⟩
  · rw [← hrep.basicSolution_basic hb]
    exact StandardForm.eq_zero_of_worth_one_eq_zero (h.nonnegative.basicSolution_nonneg hrep)
      hworth (hrep.canonical.rows.basic_lt hb) hart
  · exact absurd (List.mem_range.mpr (List.getElem?_eq_some_iff.mp hb).1) hk

theorem pass (hrep : t.Represents form) (h : t.Exact form (.exchanging (i :: rows)))
    (hkeep : t.basis[i]?.any form.isArtificial = true → t.replacementColumn form 0 i = none) :
    t.Exact form (.exchanging rows) := by
  refine ⟨h.nonnegative, fun hrows ↦ ?_⟩
  cases hrows
  refine (h.idle rfl).tail hrep fun ha hart ↦ hkeep ?_
  rw [basis, List.getElem?_map, ha]
  exact hart

/-- An exchange pivots on a row whose constant is zero, whatever the sign of its pivot element. -/
theorem exchange (hrep : t.Represents form) (h : t.Exact form (.exchanging (i :: rows)))
    (hart : t.basis[i]?.any form.isArtificial = true)
    (hj : t.replacementColumn form 0 i = some j) : (t.pivot i j).Exact form (.exchanging rows) := by
  obtain ⟨a, ha, hart⟩ := exists_row_of_basis_any hart
  obtain ⟨hlt, hgenuine, hcell⟩ := replacementColumn_eq_some hj
  rw [cell, row_eq ha, abs_pos] at hcell
  have hzero := (h.idle rfl ha hart).1
  refine ⟨h.nonnegative.pivot_of_eq_zero hrep ha hcell hzero, fun hrows ↦ ?_⟩
  cases hrows
  refine ((h.idle rfl).pivot hrep ha hcell (hrep.numColumns_eq ▸ hlt) hgenuine
    fun _ _ _ ↦ by rw [hzero, mul_zero]).mono fun k hk ↦ ?_
  obtain ⟨hk, hki⟩ := List.mem_filter.mp hk
  exact (List.mem_cons.mp hk).resolve_left (by simpa using hki)

end Tableau.Exact

variable {p : Problem ℚ} {stage : Stage} {t : Tableau ℚ}

/-- **Every tableau of an exact solve is feasible**, and in phase two its artificial variables are
idle. -/
theorem Reached.exact (hp : p.WellFormed) (h : Reached (.ofWellFormed p) 0 stage t) :
    t.Exact (.ofWellFormed p) stage := by
  induction h with
  | initial =>
    refine ⟨Tableau.nonnegative_initial hp, fun hrows ↦ ?_⟩
    rw [Tableau.phase_initial] at hrows
    split_ifs at hrows with hart
    · cases hrows
    · cases hrows
      exact Tableau.idle_initial (Bool.eq_false_iff.mpr hart)
  | pivot h hj hi ih => exact ih.pivot (h.represents hp le_rfl) h.phase_eq hj hi
  | turn h _ hzero ih => exact ih.turn (h.represents hp le_rfl) h.phase_eq hzero
  | pass h hkeep ih => exact ih.pass (h.represents hp le_rfl) hkeep
  | exchange h hart hj ih => exact ih.exchange (h.represents hp le_rfl) hart hj
  | install h ih => exact ⟨ih.nonnegative, fun hrows ↦ by cases hrows; exact ih.idle rfl⟩

end LinearProgramming
