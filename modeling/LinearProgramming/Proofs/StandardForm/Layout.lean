import LinearProgramming.Proofs.Problem.WellFormed
import LinearProgramming.Proofs.Row

/-!
# The layout of the standard form

Rows take their slack, surplus and artificial columns from top to bottom, so the column of a row is
told by how many rows above it take one of the same kind: its *rank*. Ranks of different rows that
take a column are different, which is why no two rows share one and why the columns that are basic
to begin with form an identity.
-/

open Finset

namespace LinearProgramming

/-! ## Ranks -/

section Rank

variable {β γ : Type} {q : β → Bool} {l : List β} {i k : ℕ} {a b : β}

/-- How many of the first `i` entries of a list satisfy `q`. -/
def rank (q : β → Bool) (l : List β) (i : ℕ) : ℕ := (l.take i).countP q

@[simp] theorem rank_zero (q : β → Bool) (l : List β) : rank q l 0 = 0 := rfl

theorem rank_cons_succ (q : β → Bool) (a : β) (l : List β) (i : ℕ) :
    rank q (a :: l) (i + 1) = (q a).toNat + rank q l i := by
  rw [rank, List.take_succ_cons, List.countP_cons, rank, add_comm]
  cases q a <;> rfl

theorem rank_lt_countP (ha : l[i]? = some a) (hq : q a = true) : rank q l i < l.countP q := by
  induction l generalizing i with
  | nil => simp at ha
  | cons b l ih =>
    cases i with
    | zero =>
      obtain rfl : b = a := by simpa using ha
      rw [rank_zero, List.countP_cons_of_pos hq]
      omega
    | succ i =>
      have hi := ih (i := i) ha
      rw [rank_cons_succ, List.countP_cons]
      cases q b <;> simp <;> omega

theorem rank_injective (ha : l[i]? = some a) (hqa : q a = true) (hb : l[k]? = some b)
    (hqb : q b = true) (h : rank q l i = rank q l k) : i = k := by
  induction l generalizing i k with
  | nil => simp at ha
  | cons c l ih =>
    cases i with
    | zero =>
      obtain rfl : c = a := by simpa using ha
      cases k with
      | zero => rfl
      | succ k =>
        rw [rank_zero, rank_cons_succ, hqa] at h
        exact absurd h (by rw [Bool.toNat_true]; omega)
    | succ i =>
      cases k with
      | zero =>
        obtain rfl : c = b := by simpa using hb
        rw [rank_zero, rank_cons_succ, hqb] at h
        exact absurd h (by rw [Bool.toNat_true]; omega)
      | succ k =>
        rw [rank_cons_succ, rank_cons_succ, Nat.add_left_cancel_iff] at h
        rw [ih (i := i) (k := k) ha hb h]

theorem exists_rank_eq (hk : k < l.countP q) :
    ∃ i a, l[i]? = some a ∧ q a = true ∧ rank q l i = k := by
  induction l generalizing k with
  | nil => exact absurd hk (Nat.not_lt_zero k)
  | cons b l ih =>
    by_cases hb : q b = true
    · cases k with
      | zero => exact ⟨0, b, rfl, hb, rfl⟩
      | succ k =>
        rw [List.countP_cons_of_pos hb] at hk
        obtain ⟨i, a, hi, ha, rfl⟩ := ih (Nat.lt_of_succ_lt_succ hk)
        exact ⟨i + 1, a, hi, ha, by rw [rank_cons_succ, hb, Bool.toNat_true, Nat.add_comm]⟩
    · rw [List.countP_cons_of_neg hb] at hk
      obtain ⟨i, a, hi, ha, rfl⟩ := ih hk
      exact ⟨i + 1, a, hi, ha, by
        rw [rank_cons_succ, Bool.eq_false_iff.mpr hb, Bool.toNat_false, Nat.zero_add]⟩

variable {f : β × ℕ → Option γ}

theorem length_filterMap_zipIdx (hf : ∀ a i, (f (a, i)).isSome = q a) (l : List β) (s : ℕ) :
    ((l.zipIdx s).filterMap f).length = l.countP q := by
  induction l generalizing s with
  | nil => rfl
  | cons a l ih =>
    rw [List.zipIdx_cons, List.filterMap_cons, List.countP_cons, ← hf a s]
    cases f (a, s) with
    | none => exact ih (s + 1)
    | some c => rw [List.length_cons, ih (s + 1)]; rfl

theorem getElem?_filterMap_zipIdx (hf : ∀ a i, (f (a, i)).isSome = q a) (ha : l[i]? = some a)
    (hq : q a = true) (s : ℕ) : ((l.zipIdx s).filterMap f)[rank q l i]? = f (a, s + i) := by
  induction l generalizing i s with
  | nil => simp at ha
  | cons b l ih =>
    rw [List.zipIdx_cons, List.filterMap_cons]
    cases i with
    | zero =>
      obtain rfl : b = a := by simpa using ha
      obtain ⟨c, hc⟩ := Option.isSome_iff_exists.mp ((hf b s).trans hq)
      rw [rank_zero, hc]
      exact hc.symm
    | succ i =>
      rw [rank_cons_succ, ← hf b s, show s + (i + 1) = s + 1 + i from by omega,
        ← ih (i := i) ha (s + 1)]
      cases f (b, s) with
      | none => rw [Option.isSome_none, Bool.toNat_false, Nat.zero_add]
      | some c => rw [Option.isSome_some, Bool.toNat_true, Nat.add_comm 1, List.getElem?_cons_succ]

end Rank

/-! ## Columns and rows -/

section Columns

variable {α : Type} [Scalar α]

theorem Constraint.length_normalize (c : Constraint α) :
    c.normalize.coefficients.length = c.coefficients.length := by
  rw [Constraint.normalize]
  split_ifs
  · exact List.length_map ..
  · rfl

omit [Scalar α] in
theorem NormalRow.isSome_auxiliaryColumn? (row : NormalRow α) (i : ℕ) :
    (row.auxiliaryColumn? i).isSome = row.relation.hasAuxiliary := by
  rw [NormalRow.auxiliaryColumn?, Relation.hasAuxiliary]
  cases row.relation <;> rfl

omit [Scalar α] in
theorem NormalRow.isSome_artificialColumn? (row : NormalRow α) (i : ℕ) :
    (row.artificialColumn? i).isSome = row.relation.hasArtificial := by
  rw [NormalRow.artificialColumn?]
  cases row.relation.hasArtificial <;> rfl

theorem Relation.eq_le_of_not_hasArtificial {r : Relation} (h : ¬r.hasArtificial = true) :
    r = .le := by
  cases r with
  | le => rfl
  | ge => exact absurd rfl h
  | eq => exact absurd rfl h

theorem Relation.hasAuxiliary_of_not_hasArtificial {r : Relation} (h : ¬r.hasArtificial = true) :
    r.hasAuxiliary = true := by
  rw [Relation.eq_le_of_not_hasArtificial h]
  rfl

namespace Problem

variable (p : Problem α)

/-- The constraints with their right-hand sides turned. -/
def normalRows : List (NormalRow α) := p.constraints.map (·.normalize)

/-- How many slacks and surpluses the standard form has. -/
def numAuxiliary : ℕ := p.normalRows.countP (·.relation.hasAuxiliary)

/-- How many artificial variables the standard form has. -/
def numArtificial : ℕ := p.normalRows.countP (·.relation.hasArtificial)

/-- The column of the slack or surplus of constraint `i`, if it has one. -/
def auxiliaryOf (i : ℕ) : ℕ := p.numVariables + rank (·.relation.hasAuxiliary) p.normalRows i

/-- The column of the artificial variable of constraint `i`, if it has one. -/
def artificialOf (i : ℕ) : ℕ :=
  p.numVariables + p.numAuxiliary + rank (·.relation.hasArtificial) p.normalRows i

variable {p} {i k : ℕ} {row row' : NormalRow α}

theorem getElem?_normalRows {con : Constraint α} (h : p.constraints[i]? = some con) :
    p.normalRows[i]? = some con.normalize := by
  rw [normalRows, List.getElem?_map, h, Option.map_some]

theorem exists_of_getElem?_normalRows (h : p.normalRows[i]? = some row) :
    ∃ con, p.constraints[i]? = some con ∧ con.normalize = row := by
  rwa [normalRows, List.getElem?_map, Option.map_eq_some_iff] at h

theorem le_auxiliaryOf : p.numVariables ≤ p.auxiliaryOf i := Nat.le_add_right ..

theorem auxiliaryOf_lt (hi : p.normalRows[i]? = some row)
    (haux : row.relation.hasAuxiliary = true) :
    p.auxiliaryOf i < p.numVariables + p.numAuxiliary :=
  Nat.add_lt_add_left (rank_lt_countP hi haux) _

theorem le_artificialOf : p.numVariables + p.numAuxiliary ≤ p.artificialOf i :=
  Nat.le_add_right ..

theorem artificialOf_lt (hi : p.normalRows[i]? = some row)
    (hart : row.relation.hasArtificial = true) :
    p.artificialOf i < p.numVariables + p.numAuxiliary + p.numArtificial :=
  Nat.add_lt_add_left (rank_lt_countP hi hart) _

theorem auxiliaryOf_injective (hi : p.normalRows[i]? = some row)
    (haux : row.relation.hasAuxiliary = true) (hk : p.normalRows[k]? = some row')
    (haux' : row'.relation.hasAuxiliary = true) (h : p.auxiliaryOf i = p.auxiliaryOf k) : i = k :=
  rank_injective hi haux hk haux' (Nat.add_left_cancel h)

theorem artificialOf_injective (hi : p.normalRows[i]? = some row)
    (hart : row.relation.hasArtificial = true) (hk : p.normalRows[k]? = some row')
    (hart' : row'.relation.hasArtificial = true) (h : p.artificialOf i = p.artificialOf k) :
    i = k :=
  rank_injective hi hart hk hart' (Nat.add_left_cancel h)

end Problem

namespace StandardForm

variable {p : Problem α} {i k c : ℕ} {row row' : NormalRow α} {placed placed' : StandardRow α}

theorem numStructural_ofWellFormed (p : Problem α) :
    (ofWellFormed p).numStructural = p.numVariables := rfl

theorem columns_ofWellFormed (p : Problem α) : (ofWellFormed p).columns
    = (List.range p.numVariables).map .structural
      ++ p.normalRows.zipIdx.filterMap (fun (row, i) ↦ row.auxiliaryColumn? i)
      ++ p.normalRows.zipIdx.filterMap (fun (row, i) ↦ row.artificialColumn? i) := rfl

theorem length_objective (p : Problem α) :
    (ofWellFormed p).objective.length = p.numVariables := by
  rw [ofWellFormed]
  cases p.sense with
  | maximize => rfl
  | minimize => exact List.length_map ..

private theorem length_blocks (p : Problem α) :
    ((List.range p.numVariables).map Column.structural
      ++ p.normalRows.zipIdx.filterMap (fun (row, i) ↦ row.auxiliaryColumn? i)).length
      = p.numVariables + p.numAuxiliary := by
  rw [List.length_append, List.length_map, List.length_range,
    length_filterMap_zipIdx (fun row i ↦ row.isSome_auxiliaryColumn? i), Problem.numAuxiliary]

theorem numColumns_ofWellFormed (p : Problem α) :
    (ofWellFormed p).numColumns = p.numVariables + p.numAuxiliary + p.numArtificial := by
  rw [numColumns, columns_ofWellFormed, List.length_append, length_blocks,
    length_filterMap_zipIdx (fun row i ↦ row.isSome_artificialColumn? i), Problem.numArtificial]

theorem numVariables_le_numColumns (p : Problem α) :
    p.numVariables ≤ (ofWellFormed p).numColumns := by
  rw [numColumns_ofWellFormed]
  omega

theorem auxiliaryOf_lt_numColumns (hi : p.normalRows[i]? = some row)
    (haux : row.relation.hasAuxiliary = true) : p.auxiliaryOf i < (ofWellFormed p).numColumns := by
  rw [numColumns_ofWellFormed]
  exact (Problem.auxiliaryOf_lt hi haux).trans_le (Nat.le_add_right ..)

theorem artificialOf_lt_numColumns (hi : p.normalRows[i]? = some row)
    (hart : row.relation.hasArtificial = true) :
    p.artificialOf i < (ofWellFormed p).numColumns := by
  rw [numColumns_ofWellFormed]
  exact Problem.artificialOf_lt hi hart

theorem getElem?_columns_structural (hc : c < p.numVariables) :
    (ofWellFormed p).columns[c]? = some (.structural c) := by
  have hlen : c < ((List.range p.numVariables).map Column.structural).length := by
    rwa [List.length_map, List.length_range]
  rw [columns_ofWellFormed, List.append_assoc, List.getElem?_append_left hlen,
    List.getElem?_map, List.getElem?_range hc]
  rfl

theorem getElem?_columns_auxiliaryOf (hi : p.normalRows[i]? = some row)
    (haux : row.relation.hasAuxiliary = true) :
    (ofWellFormed p).columns[p.auxiliaryOf i]? = row.auxiliaryColumn? i := by
  have hlen : ((List.range p.numVariables).map Column.structural).length = p.numVariables := by
    rw [List.length_map, List.length_range]
  rw [columns_ofWellFormed, List.getElem?_append_left
    (by rw [length_blocks]; exact Problem.auxiliaryOf_lt hi haux), List.getElem?_append_right
    (by rw [hlen]; exact Problem.le_auxiliaryOf), hlen, Problem.auxiliaryOf,
    Nat.add_sub_cancel_left,
    getElem?_filterMap_zipIdx (fun row i ↦ row.isSome_auxiliaryColumn? i) hi haux, Nat.zero_add]

theorem getElem?_columns_artificialOf (hi : p.normalRows[i]? = some row)
    (hart : row.relation.hasArtificial = true) :
    (ofWellFormed p).columns[p.artificialOf i]? = some (.artificial i) := by
  rw [columns_ofWellFormed, List.getElem?_append_right
    (by rw [length_blocks]; exact Problem.le_artificialOf), length_blocks, Problem.artificialOf,
    Nat.add_sub_cancel_left,
    getElem?_filterMap_zipIdx (fun row i ↦ row.isSome_artificialColumn? i) hi hart, Nat.zero_add]
  exact if_pos hart

theorem isArtificial_structural (hc : c < p.numVariables) :
    (ofWellFormed p).isArtificial c = false := by
  rw [isArtificial, getElem?_columns_structural hc]

theorem isArtificial_artificialOf (hi : p.normalRows[i]? = some row)
    (hart : row.relation.hasArtificial = true) :
    (ofWellFormed p).isArtificial (p.artificialOf i) = true := by
  rw [isArtificial, getElem?_columns_artificialOf hi hart]

theorem isArtificial_auxiliaryOf (hi : p.normalRows[i]? = some row)
    (haux : row.relation.hasAuxiliary = true) :
    (ofWellFormed p).isArtificial (p.auxiliaryOf i) = false := by
  rw [isArtificial, getElem?_columns_auxiliaryOf hi haux, NormalRow.auxiliaryColumn?]
  cases row.relation <;> rfl

/-- **Whose a column is**: a variable's, or a row's slack or surplus, or its artificial variable. -/
theorem column_cases (hc : c < (ofWellFormed p).numColumns) : c < p.numVariables
    ∨ (∃ i row, p.normalRows[i]? = some row ∧ row.relation.hasAuxiliary = true
      ∧ c = p.auxiliaryOf i)
    ∨ ∃ i row, p.normalRows[i]? = some row ∧ row.relation.hasArtificial = true
      ∧ c = p.artificialOf i := by
  rw [numColumns_ofWellFormed] at hc
  rcases lt_or_ge c p.numVariables with hstructural | hge
  · exact .inl hstructural
  rcases lt_or_ge c (p.numVariables + p.numAuxiliary) with hauxiliary | hge'
  · obtain ⟨i, row, hi, haux, hrank⟩ := exists_rank_eq (q := (·.relation.hasAuxiliary))
      (l := p.normalRows) (k := c - p.numVariables) (by rw [← Problem.numAuxiliary]; omega)
    refine .inr (.inl ⟨i, row, hi, haux, ?_⟩)
    rw [Problem.auxiliaryOf, hrank]
    omega
  · obtain ⟨i, row, hi, hart, hrank⟩ := exists_rank_eq (q := (·.relation.hasArtificial))
      (l := p.normalRows) (k := c - (p.numVariables + p.numAuxiliary))
      (by rw [← Problem.numArtificial]; omega)
    refine .inr (.inr ⟨i, row, hi, hart, ?_⟩)
    rw [Problem.artificialOf, hrank]
    omega

theorem exists_of_isArtificial (hc : (ofWellFormed p).isArtificial c = true) :
    ∃ i row, p.normalRows[i]? = some row ∧ row.relation.hasArtificial = true
      ∧ c = p.artificialOf i := by
  have hlt : c < (ofWellFormed p).numColumns := by
    by_contra hge
    rw [isArtificial, List.getElem?_eq_none (not_lt.mp hge)] at hc
    exact absurd hc Bool.false_ne_true
  rcases column_cases hlt with hstructural | ⟨i, row, hi, haux, rfl⟩ | hart
  · rw [isArtificial_structural hstructural] at hc
    exact absurd hc Bool.false_ne_true
  · rw [isArtificial_auxiliaryOf hi haux] at hc
    exact absurd hc Bool.false_ne_true
  · exact hart

/-! ## Placed rows -/

private theorem getElem?_placeAll (start extra : ℕ) (rows : List (NormalRow α)) (a r i : ℕ) :
    (NormalRow.placeAll start extra a r rows)[i]?
      = rows[i]?.map fun row ↦ row.place start extra
          (a + rank (·.relation.hasAuxiliary) rows i)
          (r + rank (·.relation.hasArtificial) rows i) := by
  induction rows generalizing a r i with
  | nil => rfl
  | cons row rows ih =>
    rw [NormalRow.placeAll]
    cases i with
    | zero => rfl
    | succ i =>
      rw [List.getElem?_cons_succ, List.getElem?_cons_succ, ih, rank_cons_succ, rank_cons_succ,
        Nat.add_assoc, Nat.add_assoc]

/-- **The rows of the standard form**, each placed in the columns that are its own. -/
theorem getElem?_rows_ofWellFormed (p : Problem α) (i : ℕ) :
    (ofWellFormed p).rows[i]? = p.normalRows[i]?.map fun row ↦ row.place p.numVariables
      (p.numAuxiliary + p.numArtificial) (p.auxiliaryOf i) (p.artificialOf i) :=
  getElem?_placeAll ..

theorem exists_of_getElem?_rows
    (h : (ofWellFormed p).rows[i]? = some placed) : ∃ row, p.normalRows[i]? = some row
      ∧ placed = row.place p.numVariables (p.numAuxiliary + p.numArtificial) (p.auxiliaryOf i)
        (p.artificialOf i) := by
  rw [getElem?_rows_ofWellFormed, Option.map_eq_some_iff] at h
  obtain ⟨row, hi, rfl⟩ := h
  exact ⟨row, hi, rfl⟩

theorem length_rows_ofWellFormed (p : Problem α) :
    (ofWellFormed p).rows.length = p.numConstraints := by
  have hlen : ∀ (start extra a r : ℕ) (rows : List (NormalRow α)),
      (NormalRow.placeAll start extra a r rows).length = rows.length := by
    intro start extra a r rows
    induction rows generalizing a r with
    | nil => rfl
    | cons row rows ih => rw [NormalRow.placeAll, List.length_cons, ih, List.length_cons]
  exact (hlen ..).trans (List.length_map ..)

theorem length_normalRow (hp : p.WellFormed) (hi : p.normalRows[i]? = some row) :
    row.coefficients.length = p.numVariables := by
  obtain ⟨con, hcon, rfl⟩ := Problem.exists_of_getElem?_normalRows hi
  rw [con.length_normalize, hp.length_coefficients con (List.mem_of_getElem? hcon)]

theorem length_placed (hp : p.WellFormed) (hi : p.normalRows[i]? = some row)
    (hrow : (ofWellFormed p).rows[i]? = some placed) :
    placed.coefficients.length = (ofWellFormed p).numColumns := by
  rw [getElem?_rows_ofWellFormed, hi, Option.map_some, Option.some_inj] at hrow
  rw [← hrow, NormalRow.place, List.length_append, List.length_map, List.length_range',
    length_normalRow hp hi, numColumns_ofWellFormed, Nat.add_assoc]

theorem length_of_mem_rows (hp : p.WellFormed) (h : placed ∈ (ofWellFormed p).rows) :
    placed.coefficients.length = (ofWellFormed p).numColumns := by
  obtain ⟨i, hi⟩ := List.mem_iff_getElem?.mp h
  obtain ⟨row, hrow, -⟩ := exists_of_getElem?_rows hi
  exact length_placed hp hrow hi

theorem cellAt_placed_of_le (hp : p.WellFormed) (hi : p.normalRows[i]? = some row)
    (hrow : (ofWellFormed p).rows[i]? = some placed) (hge : p.numVariables ≤ c)
    (hc : c < (ofWellFormed p).numColumns) : cellAt placed.coefficients c
      = if row.relation.hasAuxiliary ∧ c = p.auxiliaryOf i then row.auxiliaryCoefficient
        else if row.relation.hasArtificial ∧ c = p.artificialOf i then 1 else 0 := by
  have hlen : row.coefficients.length = p.numVariables := length_normalRow hp hi
  rw [getElem?_rows_ofWellFormed, hi, Option.map_some, Option.some_inj] at hrow
  rw [numColumns_ofWellFormed, Nat.add_assoc] at hc
  rw [← hrow, NormalRow.place, cellAt_append_right (by omega), hlen, cellAt_eq_getElem (by
    rw [List.length_map, List.length_range']; omega), List.getElem_map, List.getElem_range',
    Nat.one_mul, Nat.add_sub_cancel' hge]
  simp only [Bool.and_eq_true, beq_iff_eq]

theorem cellAt_placed_artificialOf (hp : p.WellFormed) (hi : p.normalRows[i]? = some row)
    (hart : row.relation.hasArtificial = true) (hk : p.normalRows[k]? = some row')
    (hrow : (ofWellFormed p).rows[k]? = some placed) :
    cellAt placed.coefficients (p.artificialOf i) = if k = i then 1 else 0 := by
  have hge := Problem.le_artificialOf (p := p) (i := i)
  have haux : ¬(row'.relation.hasAuxiliary = true ∧ p.artificialOf i = p.auxiliaryOf k) := by
    rintro ⟨haux', heq⟩
    have := Problem.auxiliaryOf_lt hk haux'
    omega
  rw [cellAt_placed_of_le hp hk hrow ((Nat.le_add_right ..).trans hge)
    (artificialOf_lt_numColumns hi hart), if_neg haux]
  refine if_congr ⟨fun h ↦ ?_, fun h ↦ ?_⟩ rfl rfl
  · exact (Problem.artificialOf_injective hi hart hk h.1 h.2).symm
  · subst h
    obtain rfl := Option.some_inj.mp (hi.symm.trans hk)
    exact ⟨hart, rfl⟩

theorem cellAt_placed_auxiliaryOf (hp : p.WellFormed) (hi : p.normalRows[i]? = some row)
    (haux : row.relation.hasAuxiliary = true) (hk : p.normalRows[k]? = some row')
    (hrow : (ofWellFormed p).rows[k]? = some placed) :
    cellAt placed.coefficients (p.auxiliaryOf i)
      = if k = i then row.auxiliaryCoefficient else 0 := by
  have hblock := Problem.auxiliaryOf_lt hi haux
  have hart : ¬(row'.relation.hasArtificial = true ∧ p.auxiliaryOf i = p.artificialOf k) := by
    rintro ⟨-, heq⟩
    have := Problem.le_artificialOf (p := p) (i := k)
    omega
  rw [cellAt_placed_of_le hp hk hrow Problem.le_auxiliaryOf (auxiliaryOf_lt_numColumns hi haux),
    if_neg hart]
  by_cases hki : k = i
  · subst hki
    obtain rfl := Option.some_inj.mp (hi.symm.trans hk)
    rw [if_pos ⟨haux, rfl⟩, if_pos rfl]
  · rw [if_neg hki, if_neg]
    exact fun h ↦ hki (Problem.auxiliaryOf_injective hi haux hk h.1 h.2).symm

/-! ## The columns that are basic to begin with -/

private theorem basic_place (row : NormalRow α) (start extra auxiliary artificial : ℕ) :
    (row.place start extra auxiliary artificial).basic
      = if row.relation.hasArtificial then artificial else auxiliary := rfl

/-- The column a row starts with is its artificial variable if it has one, and its slack if not. -/
theorem basic_placed_lt (ha : (ofWellFormed p).rows[i]? = some placed) :
    p.numVariables ≤ placed.basic ∧ placed.basic < (ofWellFormed p).numColumns := by
  obtain ⟨row, hi, rfl⟩ := exists_of_getElem?_rows ha
  rw [basic_place]
  by_cases hart : row.relation.hasArtificial = true
  · rw [if_pos hart]
    exact ⟨(Nat.le_add_right ..).trans Problem.le_artificialOf, artificialOf_lt_numColumns hi hart⟩
  · rw [if_neg hart]
    exact ⟨Problem.le_auxiliaryOf,
      auxiliaryOf_lt_numColumns hi (Relation.hasAuxiliary_of_not_hasArtificial hart)⟩

/-- **They form an identity.** Either way the starting column is the row's own, and no other row has
a cell in it. -/
theorem cellAt_placed_basic (hp : p.WellFormed) (ha : (ofWellFormed p).rows[i]? = some placed)
    (hb : (ofWellFormed p).rows[k]? = some placed') :
    cellAt placed'.coefficients placed.basic = if k = i then 1 else 0 := by
  obtain ⟨row, hi, rfl⟩ := exists_of_getElem?_rows ha
  obtain ⟨row', hk, -⟩ := exists_of_getElem?_rows hb
  rw [basic_place]
  by_cases hart : row.relation.hasArtificial = true
  · rw [if_pos hart, cellAt_placed_artificialOf hp hi hart hk hb]
  · have hone : row.auxiliaryCoefficient = 1 := by
      rw [NormalRow.auxiliaryCoefficient, Relation.eq_le_of_not_hasArtificial hart]
      rfl
    rw [if_neg hart, cellAt_placed_auxiliaryOf hp hi
      (Relation.hasAuxiliary_of_not_hasArtificial hart) hk hb, hone]

theorem basic_placed_injective (ha : (ofWellFormed p).rows[i]? = some placed)
    (hb : (ofWellFormed p).rows[k]? = some placed') (h : placed.basic = placed'.basic) : i = k := by
  obtain ⟨row, hi, rfl⟩ := exists_of_getElem?_rows ha
  obtain ⟨row', hk, rfl⟩ := exists_of_getElem?_rows hb
  have hgei := Problem.le_artificialOf (p := p) (i := i)
  have hgek := Problem.le_artificialOf (p := p) (i := k)
  rw [basic_place, basic_place] at h
  by_cases hart : row.relation.hasArtificial = true <;>
    by_cases hart' : row'.relation.hasArtificial = true
  · rw [if_pos hart, if_pos hart'] at h
    exact Problem.artificialOf_injective hi hart hk hart' h
  · rw [if_pos hart, if_neg hart'] at h
    have hlt := Problem.auxiliaryOf_lt hk (Relation.hasAuxiliary_of_not_hasArtificial hart')
    omega
  · rw [if_neg hart, if_pos hart'] at h
    have hlt := Problem.auxiliaryOf_lt hi (Relation.hasAuxiliary_of_not_hasArtificial hart)
    omega
  · rw [if_neg hart, if_neg hart'] at h
    exact Problem.auxiliaryOf_injective hi (Relation.hasAuxiliary_of_not_hasArtificial hart) hk
      (Relation.hasAuxiliary_of_not_hasArtificial hart') h

end StandardForm

end Columns

/-! ## Cells of the placed rows -/

theorem Constraint.rhs_normalize_nonneg (con : Constraint ℚ) : 0 ≤ con.normalize.rhs := by
  rw [Constraint.normalize]
  split_ifs with hneg
  · exact neg_nonneg.mpr hneg.le
  · exact not_lt.mp hneg

namespace StandardForm

variable {p : Problem ℚ} {i c : ℕ} {row : NormalRow ℚ} {placed : StandardRow ℚ}

theorem rhs_normalRow_nonneg (hi : p.normalRows[i]? = some row) : 0 ≤ row.rhs := by
  obtain ⟨con, -, rfl⟩ := Problem.exists_of_getElem?_normalRows hi
  exact con.rhs_normalize_nonneg

/-- **A placed row, cell by cell**: its own coefficients, and the two columns that are its own. -/
theorem cellAt_placed (hp : p.WellFormed) (hi : p.normalRows[i]? = some row)
    (hrow : (ofWellFormed p).rows[i]? = some placed) (hc : c < (ofWellFormed p).numColumns) :
    cellAt placed.coefficients c = cellAt row.coefficients c
      + (if row.relation.hasAuxiliary ∧ c = p.auxiliaryOf i then row.auxiliaryCoefficient else 0)
      + (if row.relation.hasArtificial ∧ c = p.artificialOf i then 1 else 0) := by
  have hlen : row.coefficients.length = p.numVariables := length_normalRow hp hi
  have haux := Problem.le_auxiliaryOf (p := p) (i := i)
  have hart := Problem.le_artificialOf (p := p) (i := i)
  -- To the left of the added cells the row is its own; among them it has at most two that are not
  -- zero, and those are in different blocks.
  by_cases hstruct : c < p.numVariables
  · rw [getElem?_rows_ofWellFormed, hi, Option.map_some, Option.some_inj] at hrow
    rw [← hrow, NormalRow.place, cellAt_append_left (by rwa [hlen]), if_neg (by omega),
      if_neg (by omega), add_zero, add_zero]
  · rw [cellAt_placed_of_le hp hi hrow (not_lt.mp hstruct) hc, cellAt_eq_zero (by omega), zero_add]
    by_cases hown : row.relation.hasAuxiliary = true ∧ c = p.auxiliaryOf i
    · have hother : ¬(row.relation.hasArtificial = true ∧ c = p.artificialOf i) := by
        rw [hown.2]
        exact fun h ↦ ((Problem.auxiliaryOf_lt hi hown.1).trans_le hart).ne h.2
      rw [if_pos hown, if_pos hown, if_neg hother, add_zero]
    · rw [if_neg hown, if_neg hown, zero_add]

end StandardForm

end LinearProgramming
