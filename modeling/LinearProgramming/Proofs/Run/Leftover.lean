import LinearProgramming.Proofs.Problem.Feasible
import LinearProgramming.Proofs.Run.LastTableau
import LinearProgramming.Proofs.Run.Monotone

/-!
# Artificial variables that stay

Phase one may leave artificial variables in the basis, each in a row that is zero in all genuine
columns. Such a row is an equation among artificial variables alone, and two solutions of the
standard form that agree on the artificial variables outside the basis therefore agree on those in
it.

Two readings of that are wanted here. The artificial variable of a `≥` can be raised together with
the surplus of its row while nothing else moves, so it is not one of those that stay. And if all
other equalities hold at a point, then so do those whose artificial variables stay, since at the
basic solution all artificial variables are zero: these equalities follow from the others.

In phase two only genuine columns enter, so the rows in question are neither pivoted on nor changed.
-/

open Finset

namespace LinearProgramming

namespace Tableau

/-- That row `i` is zero in every genuine column and in the column of constants. -/
structure ZeroRow (form : StandardForm ℚ) (t : Tableau ℚ) (i : ℕ) : Prop where
  cell_eq_zero : ∀ j < form.numColumns, form.isArtificial j = false → t.cell i j = 0
  constant_eq_zero : t.constantOf (t.row i) = 0

/-- The constraints whose artificial variables are basic. -/
def leftover (form : StandardForm ℚ) (t : Tableau ℚ) : List ℕ :=
  t.basis.filterMap fun c ↦ match form.columns[c]? with
    | some (Column.artificial i) => some i
    | _ => none

theorem mem_leftover_iff {form : StandardForm ℚ} {t : Tableau ℚ} {i : ℕ} :
    i ∈ t.leftover form ↔ ∃ c ∈ t.basis, form.columns[c]? = some (.artificial i) := by
  rw [leftover, List.mem_filterMap]
  refine exists_congr fun c ↦ and_congr_right fun _ ↦ ?_
  cases form.columns[c]? with
  | none => simp
  | some column => cases column <;> simp

theorem exists_of_getElem?_basis {t : Tableau ℚ} {i c : ℕ} (h : t.basis[i]? = some c) :
    ∃ a, t.rows[i]? = some a ∧ a.basic = c := by
  rw [basis, List.getElem?_map, Option.map_eq_some_iff] at h
  exact h

section

variable {form : StandardForm ℚ} {t : Tableau ℚ} {i j c : ℕ} {a : TableauRow ℚ} {u u' : ℕ → ℚ}

theorem Idle.zeroRow (hrep : t.Represents form) (h : t.Idle form []) (hi : t.basis[i]? = some c)
    (hc : form.isArtificial c = true) : t.ZeroRow form i := by
  obtain ⟨a, ha, rfl⟩ := exists_of_getElem?_basis hi
  obtain ⟨hconstant, hcells⟩ := h ha hc
  refine ⟨fun j hj hgenuine ↦ ?_, ?_⟩
  · rw [cell, row_eq ha]
    exact hcells List.not_mem_nil j hj hgenuine
  · rw [constantOf_row ha hrep, hconstant]

/-- **An idle row is an equation among artificial variables.** Solutions that agree on the
artificial variables outside the basis agree on the one that is basic in the row. -/
theorem Idle.eq_of_holds (hrep : t.Represents form) (h : t.Idle form [])
    (ha : t.rows[i]? = some a) (hart : form.isArtificial a.basic = true) (hu : form.Holds u)
    (hu' : form.Holds u') (hagree : ∀ c, form.isArtificial c = true → c ∉ t.basis → u c = u' c) :
    u a.basic = u' a.basic := by
  have hsum : ∀ {u : ℕ → ℚ}, form.Holds u →
      ∑ c ∈ range form.numColumns, cellAt a.cells c * u c = cellAt a.cells form.numColumns := by
    intro u hu
    have hrow := holds_iff_getElem?.mp ((hrep.holds_iff u).mpr hu) i a ha
    rwa [hrep.numColumns_eq, residual_eq_zero_iff] at hrow
  have hzero : ∑ c ∈ range form.numColumns, cellAt a.cells c * (u c - u' c) = 0 := by
    rw [sum_congr rfl fun c _ ↦ mul_sub .., sum_sub_distrib, hsum hu, hsum hu', sub_self]
  rw [sum_eq_single a.basic, hrep.canonical.rows.unit_self ha, one_mul, sub_eq_zero] at hzero
  · exact hzero
  · intro c hc hne
    cases hc' : form.isArtificial c with
    | false => rw [(h ha hart).2 List.not_mem_nil c (mem_range.mp hc) hc', zero_mul]
    | true =>
      by_cases hbasis : c ∈ t.basis
      · obtain ⟨k, b, hb, rfl⟩ := mem_basis_iff.mp hbasis
        have hki : i ≠ k := by
          rintro rfl
          exact hne (congrArg _ (Option.some_inj.mp (hb.symm.trans ha)))
        rw [hrep.canonical.rows.unit_of_ne hb ha hki, zero_mul]
      · rw [hagree c hc' hbasis, sub_self, mul_zero]
  · intro hnot
    exact absurd (mem_range.mpr (hrep.canonical.rows.basic_lt ha)) hnot

/-- **Phase two leaves them alone.** A chosen pivot of phase two neither puts an artificial variable
into the basis nor takes one out or to another row. -/
theorem Idle.getElem?_basis_pivot_iff (hrep : t.Represents form) (h : t.Idle form [])
    (hphase : t.phase = .two) (hij : t.Chooses form 0 i j) (hc : form.isArtificial c = true)
    (k : ℕ) : (t.pivot i j).basis[k]? = some c ↔ t.basis[k]? = some c := by
  obtain ⟨a, ha, hpos, -⟩ := exists_of_leavingRow_eq_some hij.2
  have henters := enters_of_enteringColumn hij.1
  have hgenuine := henters.isArtificial_eq_false hphase
  rw [basis, basis, List.getElem?_map, List.getElem?_map, getElem?_rows_pivot ha]
  rcases eq_or_ne k i with rfl | hki
  · -- The column that enters is genuine, and so is the one that leaves: its row is not idle.
    rw [ha, Option.map_some, Option.map_some, Option.map_some, pivotedRow_self, Option.some_inj,
      Option.some_inj]
    constructor
    · rintro rfl
      rw [hgenuine] at hc
      cases hc
    · rintro rfl
      have hzero := (h ha hc).2 List.not_mem_nil j (hrep.numColumns_eq ▸ henters.lt_numColumns)
        hgenuine
      exact absurd hzero hpos.ne'
  · cases t.rows[k]? with
    | none => rfl
    | some b => rw [Option.map_some, Option.map_some, pivotedRow_of_ne hki, Option.map_some]

end

/-! ## The constraints they belong to -/

section

variable {p : Problem ℚ} {t : Tableau ℚ} {i l : ℕ} {a : TableauRow ℚ}

/-- The artificial variable of a `≥` does not stay: with the surplus of its row it can be raised by
one, and then it would have to be what it was. -/
theorem Idle.relation_eq (hp : p.WellFormed) (hrep : t.Represents (.ofWellFormed p))
    (h : t.Idle (.ofWellFormed p) []) (ha : t.rows[i]? = some a) {row : NormalRow ℚ}
    (hl : p.normalRows[l]? = some row) (hart : row.relation.hasArtificial = true)
    (hbasic : a.basic = p.artificialOf l) : row.relation = .eq := by
  by_contra hne
  have hart' := StandardForm.isArtificial_artificialOf hl hart
  have hsame := h.eq_of_holds hrep ha (hbasic ▸ hart') (StandardForm.holds_completion hp [] 0)
    (StandardForm.holds_completion hp [] (Pi.single l 1)) fun c hc hbasis ↦ by
      obtain ⟨k, row', hk, hart'', rfl⟩ := StandardForm.exists_of_isArtificial hc
      have hkl : k ≠ l := by
        rintro rfl
        exact hbasis (mem_basis_iff.mpr ⟨i, a, ha, hbasic⟩)
      rw [StandardForm.completion_artificialOf hk hart'',
        StandardForm.completion_artificialOf hk hart'', Pi.single_eq_of_ne hkl, Pi.zero_apply]
  rw [hbasic, StandardForm.completion_artificialOf hl hart,
    StandardForm.completion_artificialOf hl hart, if_neg hne, if_neg hne,
    Pi.single_eq_same] at hsame
  exact zero_ne_one hsame

/-- **An artificial variable that stays** belongs to an equality. -/
theorem Idle.exists_constraint (hp : p.WellFormed) (hrep : t.Represents (.ofWellFormed p))
    (h : t.Idle (.ofWellFormed p) []) {c : ℕ} (hi : t.basis[i]? = some c)
    (hart : (StandardForm.ofWellFormed p).isArtificial c = true) :
    ∃ l con, (StandardForm.ofWellFormed p).columns[c]? = some (.artificial l)
      ∧ p.constraints[l]? = some con ∧ con.relation = .eq := by
  obtain ⟨a, ha, rfl⟩ := exists_of_getElem?_basis hi
  obtain ⟨l, row, hl, hrow, hbasic⟩ := StandardForm.exists_of_isArtificial hart
  have hrel := h.relation_eq hp hrep ha hl hrow hbasic
  have hcol := StandardForm.getElem?_columns_artificialOf hl hrow
  obtain ⟨con, hcon, rfl⟩ := Problem.exists_of_getElem?_normalRows hl
  exact ⟨l, con, hbasic ▸ hcol, hcon, con.normalize_relation_eq_iff.mp hrel⟩

theorem mem_leftover_iff_artificialOf {row : NormalRow ℚ} (hl : p.normalRows[l]? = some row)
    (hart : row.relation.hasArtificial = true) :
    l ∈ t.leftover (.ofWellFormed p) ↔ p.artificialOf l ∈ t.basis := by
  rw [mem_leftover_iff]
  constructor
  · rintro ⟨c, hbasis, hcol⟩
    obtain ⟨k, row', hk, hart', rfl⟩ := StandardForm.exists_of_isArtificial (p := p) (c := c) (by
      rw [StandardForm.isArtificial, hcol])
    rw [StandardForm.getElem?_columns_artificialOf hk hart', Option.some_inj,
      Column.artificial.injEq] at hcol
    exact hcol ▸ hbasis
  · intro hbasis
    exact ⟨_, hbasis, StandardForm.getElem?_columns_artificialOf hl hart⟩

/-- **They really are redundant.** The equalities whose artificial variables stay can be left out
together. -/
theorem Idle.isFeasible_removeConstraints (hp : p.WellFormed)
    (hrep : t.Represents (.ofWellFormed p)) (h : t.Idle (.ofWellFormed p) []) (x : List ℚ) :
    (p.removeConstraints (t.leftover (.ofWellFormed p))).isFeasible x 0 = p.isFeasible x 0 := by
  refine Problem.isFeasible_removeConstraints fun hx l hl con hcon ↦ ?_
  have hkept : ∀ {k : ℕ} {con : Constraint ℚ}, p.constraints[k]? = some con →
      k ∉ t.leftover (.ofWellFormed p) → con.Holds x := fun hk hnot ↦
    ((Problem.isFeasible_zero_iff _ x).mp hx).2.2 _
      (Problem.mem_removeConstraints_iff.mpr ⟨_, hk, hnot⟩)
  obtain ⟨c, hbasis, hcol⟩ := mem_leftover_iff.mp hl
  obtain ⟨i, a, ha, rfl⟩ := mem_basis_iff.mp hbasis
  have hart : (StandardForm.ofWellFormed p).isArtificial a.basic = true := by
    rw [StandardForm.isArtificial, hcol]
  have hgenuine := h.genuine_basicSolution hrep
  -- At the basic solution every artificial variable is zero, and where the point is completed so
  -- are those of the equalities that are kept.
  have hzero : StandardForm.completion p x 0 a.basic = 0 := by
    rw [← hgenuine _ hart]
    refine h.eq_of_holds hrep ha hart (StandardForm.holds_completion hp x 0)
      ((hrep.holds_iff _).mp (holds_basicSolution hrep.canonical)) fun c hc hnot ↦ ?_
    obtain ⟨k, row, hk, hrow, rfl⟩ := StandardForm.exists_of_isArtificial hc
    rw [hgenuine _ hc, StandardForm.completion_artificialOf hk hrow]
    split_ifs with hrel
    · have hnot : k ∉ t.leftover (.ofWellFormed p) := fun hmem ↦
        hnot ((mem_leftover_iff_artificialOf hk hrow).mp hmem)
      obtain ⟨con', hcon', rfl⟩ := Problem.exists_of_getElem?_normalRows hk
      exact (Constraint.holds_iff_room_eq_zero hrel x).mp (hkept hcon' hnot)
    · rfl
  obtain ⟨k, row, hk, hrow, hbasic⟩ := StandardForm.exists_of_isArtificial hart
  rw [hbasic, StandardForm.getElem?_columns_artificialOf hk hrow, Option.some_inj,
    Column.artificial.injEq] at hcol
  subst hcol
  obtain rfl := Option.some_inj.mp ((Problem.getElem?_normalRows hcon).symm.trans hk)
  have hrel := h.relation_eq hp hrep ha hk hrow hbasic
  rw [hbasic, StandardForm.completion_artificialOf hk hrow, if_pos hrel] at hzero
  exact (Constraint.holds_iff_room_eq_zero hrel x).mpr hzero

end

end Tableau

/-! ## Moves into phase two and in it -/

section

variable {form : StandardForm ℚ} {ε : ℚ} {t t' : Tableau ℚ} {pivot : Option (ℕ × ℕ)}

theorem Move.enters_two (h : Move form ε t pivot t') (hone : t.phase = .one)
    (htwo : t'.phase = .two) :
    Reached form ε (.exchanging []) t ∧ pivot = none ∧ t' = t.installPhaseTwo form := by
  cases h with
  | chosen => cases hone.symm.trans htwo
  | exchanged => cases hone.symm.trans htwo
  | installed h => exact ⟨h, rfl, rfl⟩

theorem Move.chooses_two (h : Move form ε t pivot t') (htwo : t.phase = .two) :
    ∃ i j, pivot = some (i, j) ∧ t' = t.pivot i j ∧ t.Chooses form ε i j
      ∧ Reached form ε (.optimizing .two) t := by
  cases h with
  | chosen h hj hi =>
    obtain rfl := h.phase_eq.symm.trans htwo
    exact ⟨_, _, rfl, rfl, ⟨hj, hi⟩, h⟩
  | exchanged h => cases h.phase_eq.symm.trans htwo
  | installed h => cases h.phase_eq.symm.trans htwo

end

end LinearProgramming
