import LinearProgramming.Proofs.Run.Represents

/-!
# Tableaus that differ in the order of their rows

Pivots permute which row a column is basic in, so a solve may come back to a basis with its rows in
another order. Two tableaus are *similar* if they have the same rows in some order, the same
objective row and the same phase.

With tolerance zero the rules do not see the order. The entering column is chosen by the objective
row. The leaving row is the one that precedes all others, by its ratio and then by its basic column,
and no two rows have the same basic column. So similar tableaus are pivoted on the same row,
wherever it stands, and stay similar.

## The basis tells the tableau

Each tableau of a solve states the same problem, and a row that is worth something known on its
solutions is told by its cells in the basic columns. Tableaus of one phase with the same set of
basic columns are therefore similar.
-/

namespace LinearProgramming

namespace Tableau

/-- That two tableaus are the same but for the order of the rows. -/
structure Similar (t t' : Tableau ℚ) : Prop where
  perm : t.rows.Perm t'.rows
  objective_eq : t.objective = t'.objective
  phase_eq : t.phase = t'.phase

variable {form : StandardForm ℚ} {ε : ℚ} {t t' : Tableau ℚ} {i j : ℕ} {a : TableauRow ℚ}

namespace Similar

theorem symm (h : t.Similar t') : t'.Similar t :=
  ⟨h.perm.symm, h.objective_eq.symm, h.phase_eq.symm⟩

theorem numColumns_eq (h : t.Similar t') : t.numColumns = t'.numColumns := by
  rw [numColumns, numColumns, h.objective_eq]

theorem enteringColumn_eq (h : t.Similar t') :
    t.enteringColumn form ε = t'.enteringColumn form ε := by
  unfold enteringColumn mayEnter
  rw [h.numColumns_eq, h.objective_eq, h.phase_eq]

theorem precedes_iff (h : t.Similar t') {b : TableauRow ℚ} :
    t.Precedes j a b ↔ t'.Precedes j a b := by
  unfold Precedes ratio constantOf
  rw [h.numColumns_eq]

theorem leavingRow_eq_none (h : t.Similar t') (hi : t.leavingRow 0 j = none) :
    t'.leavingRow 0 j = none := by
  cases hi' : t'.leavingRow 0 j with
  | none => rfl
  | some i' =>
    obtain ⟨a, ha, hpos, -⟩ := exists_of_leavingRow_eq_some hi'
    have hmem : a ∈ t.rows := h.perm.mem_iff.mpr (List.mem_of_getElem? ha)
    exact absurd hpos (not_lt.mpr (le_of_leavingRow_eq_none hi a hmem))

/-- **The leaving row is the same row**, wherever it stands. -/
theorem exists_leavingRow (h : t.Similar t') (hrows : CanonicalRows form.numColumns t.rows)
    (hi : t.leavingRow 0 j = some i) (ha : t.rows[i]? = some a) :
    ∃ i', t'.leavingRow 0 j = some i' ∧ t'.rows[i']? = some a := by
  obtain ⟨b, hb, hpos, hfirst⟩ := exists_of_leavingRow_eq_some hi
  obtain rfl : a = b := Option.some_inj.mp (ha.symm.trans hb)
  cases hi' : t'.leavingRow 0 j with
  | none =>
    rw [h.symm.leavingRow_eq_none hi'] at hi
    cases hi
  | some i' =>
    obtain ⟨b, hb, hpos', hfirst'⟩ := exists_of_leavingRow_eq_some hi'
    have hmem : b ∈ t.rows := h.perm.mem_iff.mpr (List.mem_of_getElem? hb)
    have hmem' : a ∈ t'.rows := h.perm.mem_iff.mp (List.mem_of_getElem? ha)
    -- Each precedes the other, so ratio and basic column are the same.
    have hbasic : a.basic = b.basic :=
      (hfirst rfl b hmem hpos').basic_eq (h.precedes_iff.mpr (hfirst' rfl a hmem' hpos))
    obtain ⟨k, hk⟩ := List.mem_iff_getElem?.mp hmem
    obtain rfl := hrows.index_eq_of_basic_eq ha hk hbasic
    obtain rfl : a = b := Option.some_inj.mp (ha.symm.trans hk)
    exact ⟨i', rfl, hb⟩

end Similar

/-- A pivot, row by row: the pivot row is told by its basic column, not by where it stands. -/
theorem rows_pivot_eq_map (hrows : CanonicalRows form.numColumns t.rows)
    (ha : t.rows[i]? = some a) : (t.pivot i j).rows = t.rows.map fun row ↦
      if row.basic = a.basic then { basic := j, cells := scaleTo j a.cells }
      else { row with cells := clearColumn (scaleTo j a.cells) j row.cells } := by
  refine List.ext_getElem? fun k ↦ ?_
  rw [getElem?_rows_pivot ha, List.getElem?_map]
  cases hk : t.rows[k]? with
  | none => rfl
  | some b =>
    rw [Option.map_some, Option.map_some, pivotedRow]
    simp only [hrows.index_eq_iff ha hk]

/-- **Pivots keep tableaus similar** if they are made on the same row and column. -/
theorem Similar.pivot (h : t.Similar t') (hrows : CanonicalRows form.numColumns t.rows)
    (hrows' : CanonicalRows form.numColumns t'.rows) {i' : ℕ} (ha : t.rows[i]? = some a)
    (ha' : t'.rows[i']? = some a) : (t.pivot i j).Similar (t'.pivot i' j) where
  perm := by
    rw [rows_pivot_eq_map hrows ha, rows_pivot_eq_map hrows' ha']
    exact h.perm.map _
  objective_eq := by rw [objective_pivot ha, objective_pivot ha', h.objective_eq]
  phase_eq := by rw [phase_pivot, phase_pivot, h.phase_eq]

/-! ## The basis tells the tableau -/

namespace Represents

theorem holds_iff_holds (h : t.Represents form) (h' : t'.Represents form) {u : ℕ → ℚ} :
    t.Holds u ↔ t'.Holds u := (h.holds_iff u).trans (h'.holds_iff u).symm

theorem mem_rows (h : t.Represents form) (h' : t'.Represents form)
    (hbasis : t.basis.toFinset = t'.basis.toFinset) (ha : a ∈ t.rows) : a ∈ t'.rows := by
  have hmem : ∀ {c : ℕ}, c ∈ t.basis ↔ c ∈ t'.basis := by
    intro c
    rw [← List.mem_toFinset, hbasis, List.mem_toFinset]
  obtain ⟨i, ha⟩ := List.mem_iff_getElem?.mp ha
  obtain ⟨k, b, hb, hab⟩ := mem_basis_iff.mp (hmem.mp (mem_basis_iff.mpr ⟨i, a, ha, rfl⟩))
  have hcells : a.cells = b.cells := by
    refine h.canonical.rows.eq_of_cellAt_basic (h.canonical.rows.length_cells ha)
      (h'.canonical.rows.length_cells hb) (fun row hrow ↦ ?_) fun u hu ↦ ?_
    · -- Both rows are one in their common basic column and zero in all other basic ones.
      obtain ⟨l, hl⟩ := List.mem_iff_getElem?.mp hrow
      obtain ⟨l', c, hc, hrowc⟩ := mem_basis_iff.mp (hmem.mp (mem_basis_iff.mpr ⟨l, row, hl, rfl⟩))
      rw [h.canonical.rows.unit hl ha, ← hrowc, h'.canonical.rows.unit hc hb]
      simp only [h.canonical.rows.index_eq_iff hl ha, h'.canonical.rows.index_eq_iff hc hb, hab,
        hrowc]
    · have hholds : t.Holds u := by rwa [Holds, h.numColumns_eq]
      have hzero := holds_iff_getElem?.mp ((h.holds_iff_holds h').mp hholds) k b hb
      rw [h'.numColumns_eq] at hzero
      rw [hu a (List.mem_of_getElem? ha), hzero]
  have heq : a = b := by
    cases a
    cases b
    simp_all
  exact heq ▸ List.mem_of_getElem? hb

/-- **The basis tells the tableau.** Tableaus of one phase that state the same problem and have the
same set of basic columns are similar. -/
theorem similar (h : t.Represents form) (h' : t'.Represents form)
    (hphase : t.phase = t'.phase) (hbasis : t.basis.toFinset = t'.basis.toFinset) :
    t.Similar t' where
  perm := by
    have hnodup : t.rows.Nodup := (nodup_basis h.canonical.rows).of_map _
    have hnodup' : t'.rows.Nodup := (nodup_basis h'.canonical.rows).of_map _
    exact (List.perm_ext_iff_of_nodup hnodup hnodup').mpr fun a ↦
      ⟨h.mem_rows h' hbasis, h'.mem_rows h hbasis.symm⟩
  objective_eq := by
    refine h.canonical.rows.eq_of_cellAt_basic h.canonical.length_objective
      h'.canonical.length_objective (fun row hrow ↦ ?_) fun u hu ↦ ?_
    · obtain ⟨i, hi⟩ := List.mem_iff_getElem?.mp hrow
      obtain ⟨k, hk⟩ := List.mem_iff_getElem?.mp (h.mem_rows h' hbasis hrow)
      rw [h.canonical.objective_basic hi, h'.canonical.objective_basic hk]
    · have hholds : t.Holds u := by rwa [Holds, h.numColumns_eq]
      have hworth := h.worth u hholds
      have hworth' := h'.worth u ((h.holds_iff_holds h').mp hholds)
      rw [h.numColumns_eq] at hworth
      rw [h'.numColumns_eq] at hworth'
      rw [hworth, hworth', hphase]
  phase_eq := hphase

end Represents

end Tableau

end LinearProgramming
