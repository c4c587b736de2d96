import LinearProgramming.Proofs.Checked.StandardForm

/-!
# The columns of the standard form

The standard form is built in two passes. One counts how many columns of each kind there will be,
the other goes down the rows and gives each of them the next free columns, out of a table in which
nothing but the structural columns has a meaning yet. Whatever comes later reads positions: which
columns are artificial, where the slack of a row is, what a row starts with.

`StandardForm.IsLaidOut` says what the passes agree on, in terms of the finished form alone: three
blocks of columns, each in its order, and every row in possession of its own columns and of no
others. A form that is laid out has no column without a meaning, and what its rows start with is an
identity.
-/

namespace LinearProgramming

/-! ## Whose column it is -/

namespace Relation

/-- The slack or surplus that constraint `i` has, if this is its relation. -/
def auxiliary? (i : ℕ) : Relation → Option Column
  | le => some (.slack i)
  | ge => some (.surplus i)
  | eq => none

/-- The artificial variable that constraint `i` has, if this is its relation. -/
def artificial? (i : ℕ) : Relation → Option Column
  | le => none
  | ge | eq => some (.artificial i)

end Relation

variable {α : Type} [Scalar α]

/-- The constraint that a column was added for, and its coefficient there. -/
def Column.owner? : Column → Option (ℕ × α)
  | structural _ => none
  | slack i | artificial i => some (i, 1)
  | surplus i => some (i, -1)

/-- Row `i` points at columns that were added for constraint `i`, as many as its relation asks for,
and starts with the one that has a positive coefficient. -/
structure StandardRow.Owns (columns : List Column) (i : ℕ) (row : StandardRow α) : Prop where
  le : row.relation = .le → ∃ c, columns[c]? = some (.slack i)
    ∧ row.auxiliary = some c ∧ row.artificial = none ∧ row.basic = c
  ge : row.relation = .ge → ∃ c a, columns[c]? = some (.surplus i)
    ∧ columns[a]? = some (.artificial i)
    ∧ row.auxiliary = some c ∧ row.artificial = some a ∧ row.basic = a
  eq : row.relation = .eq → ∃ a, columns[a]? = some (.artificial i)
    ∧ row.auxiliary = none ∧ row.artificial = some a ∧ row.basic = a

namespace StandardForm

/-- The columns of one kind, in the order of the rows. -/
def block (form : StandardForm α) (kind : ℕ → Relation → Option Column) : List Column :=
  (form.rows.map (·.relation)).zipIdx.filterMap fun (relation, i) ↦ kind i relation

/-- What the positions in a standard form mean. -/
structure IsLaidOut (p : Problem α) (form : StandardForm α) : Prop where
  /-- Of every constraint there is a row, with the relation that it has once it has been turned. -/
  relations : form.rows.map (·.relation)
    = p.constraints.map fun con ↦ if con.rhs < 0 then con.relation.flipped else con.relation
  columns : form.columns = (List.range p.numVariables).map .structural
    ++ form.block Relation.auxiliary? ++ form.block Relation.artificial?
  numStructural : form.numStructural = p.numVariables
  numAuxiliary : form.numAuxiliary = (form.block Relation.auxiliary?).length
  numArtificial : form.numArtificial = (form.block Relation.artificial?).length
  owns : ∀ {i : ℕ} {row : StandardRow α}, form.rows[i]? = some row → row.Owns form.columns i
  /-- A column that was added for a constraint has a cell there and nowhere else. -/
  cells : ∀ {c i k : ℕ} {column : Column} {x : α} {row : StandardRow α},
    form.columns[c]? = some column → column.owner? = some (i, x) → form.rows[k]? = some row →
      row.coefficients[c]? = some (if k = i then x else 0)
  /-- The columns that the rows start with are those of an identity. -/
  basic : ∀ {i k : ℕ} {row row' : StandardRow α}, form.rows[i]? = some row →
    form.rows[k]? = some row' → row'.coefficients[row.basic]? = some (if k = i then 1 else 0)
  isArtificial_iff : ∀ c, form.isArtificial c = true
    ↔ form.numStructural + form.numAuxiliary ≤ c ∧ c < form.numColumns
  columnLabels : form.columnLabels p = (List.range p.numVariables).map p.variableName
    ++ (List.range form.numAuxiliary).map (fun k ↦ s!"S{k + 1}")
    ++ (List.range form.numArtificial).map (fun k ↦ s!"A{k + 1}") ++ ["RHS"]

/-! ## The blocks -/

section Blocks

variable {p : Problem α} {c i : ℕ} {row : NormalRow α}

omit [Scalar α] in
theorem auxiliaryColumn?_eq (row : NormalRow α) (i : ℕ) :
    row.auxiliaryColumn? i = row.relation.auxiliary? i := rfl

omit [Scalar α] in
theorem artificialColumn?_eq (row : NormalRow α) (i : ℕ) :
    row.artificialColumn? i = row.relation.artificial? i := by
  rw [NormalRow.artificialColumn?]
  cases row.relation <;> rfl

theorem map_relation_rows (p : Problem α) :
    (ofWellFormed p).rows.map (·.relation) = p.normalRows.map (·.relation) := by
  refine List.ext_getElem? fun i ↦ ?_
  rw [List.getElem?_map, List.getElem?_map, getElem?_rows_ofWellFormed, Option.map_map]
  rfl

theorem map_relation_normalRows (p : Problem α) : p.normalRows.map (·.relation)
    = p.constraints.map fun con ↦ if con.rhs < 0 then con.relation.flipped else con.relation := by
  rw [Problem.normalRows, List.map_map]
  refine List.map_congr_left fun con _ ↦ ?_
  rw [Function.comp_apply, Constraint.normalize]
  split_ifs <;> rfl

theorem block_ofWellFormed (p : Problem α) (kind : ℕ → Relation → Option Column) :
    (ofWellFormed p).block kind
      = p.normalRows.zipIdx.filterMap fun (row, i) ↦ kind i row.relation := by
  rw [block, map_relation_rows, List.zipIdx_map, List.filterMap_map]
  rfl

theorem columns_eq_blocks (p : Problem α) : (ofWellFormed p).columns
    = (List.range p.numVariables).map .structural
      ++ (ofWellFormed p).block Relation.auxiliary?
      ++ (ofWellFormed p).block Relation.artificial? := by
  rw [columns_ofWellFormed, block_ofWellFormed, block_ofWellFormed]
  simp only [auxiliaryColumn?_eq, artificialColumn?_eq]

theorem numAuxiliary_eq_length (p : Problem α) :
    p.numAuxiliary = ((ofWellFormed p).block Relation.auxiliary?).length := by
  rw [block_ofWellFormed, Problem.numAuxiliary]
  exact (length_filterMap_zipIdx (fun row i ↦ row.isSome_auxiliaryColumn? i) _ _).symm

theorem numArtificial_eq_length (p : Problem α) :
    p.numArtificial = ((ofWellFormed p).block Relation.artificial?).length := by
  rw [block_ofWellFormed, Problem.numArtificial]
  simp only [← artificialColumn?_eq]
  exact (length_filterMap_zipIdx (fun row i ↦ row.isSome_artificialColumn? i) _ _).symm

omit [Scalar α] in
theorem eq_of_mem_block_auxiliary {form : StandardForm α} {column : Column}
    (h : column ∈ form.block Relation.auxiliary?) :
    ∃ i, column = .slack i ∨ column = .surplus i := by
  obtain ⟨⟨relation, i⟩, -, hkind⟩ := List.mem_filterMap.mp h
  cases relation with
  | le => exact ⟨i, .inl (Option.some_inj.mp hkind).symm⟩
  | ge => exact ⟨i, .inr (Option.some_inj.mp hkind).symm⟩
  | eq => cases hkind

omit [Scalar α] in
theorem eq_of_mem_block_artificial {form : StandardForm α} {column : Column}
    (h : column ∈ form.block Relation.artificial?) : ∃ i, column = .artificial i := by
  obtain ⟨⟨relation, i⟩, -, hkind⟩ := List.mem_filterMap.mp h
  cases relation with
  | le => cases hkind
  | ge | eq => exact ⟨i, (Option.some_inj.mp hkind).symm⟩

/-- **The artificial columns are the last block.** -/
theorem isArtificial_ofWellFormed_iff (p : Problem α) (c : ℕ) :
    (ofWellFormed p).isArtificial c = true
      ↔ p.numVariables + p.numAuxiliary ≤ c ∧ c < (ofWellFormed p).numColumns := by
  refine ⟨fun h ↦ ?_, fun ⟨hge, hlt⟩ ↦ ?_⟩
  · obtain ⟨i, row, hi, hart, rfl⟩ := exists_of_isArtificial h
    exact ⟨Problem.le_artificialOf, artificialOf_lt_numColumns hi hart⟩
  · rcases column_cases hlt with hstructural | ⟨i, row, hi, haux, rfl⟩ | ⟨i, row, hi, hart, rfl⟩
    · omega
    · exact absurd (Problem.auxiliaryOf_lt hi haux) (not_lt.mpr hge)
    · exact isArtificial_artificialOf hi hart

end Blocks

/-! ## Headings -/

section Headings

variable {name : ℕ → String} {columns rest : List Column} {a r : ℕ}

theorem headings_structural (js : List ℕ) (rest : List Column) :
    headings name a r (js.map .structural ++ rest)
      = js.map name ++ headings name a r rest := by
  induction js with
  | nil => rfl
  | cons j js ih => rw [List.map_cons, List.cons_append, headings, ih]; rfl

/-! The two kinds of added columns have a counter each, which goes up along their block and which the
other block leaves alone. -/

theorem headings_auxiliary (h : ∀ column ∈ columns, ∃ i, column = .slack i ∨ column = .surplus i) :
    headings name a r (columns ++ rest)
      = (List.range' a columns.length).map (fun k ↦ s!"S{k + 1}")
        ++ headings name (a + columns.length) r rest := by
  induction columns generalizing a with
  | nil => rfl
  | cons column columns ih =>
    obtain ⟨⟨i, rfl | rfl⟩, hcolumns⟩ := List.forall_mem_cons.mp h <;>
      rw [List.cons_append, headings, ih hcolumns, List.length_cons, List.range'_succ,
        List.map_cons, List.cons_append, Nat.succ_add_eq_add_succ]

theorem headings_artificial (h : ∀ column ∈ columns, ∃ i, column = .artificial i) :
    headings name a r columns = (List.range' r columns.length).map (fun k ↦ s!"A{k + 1}") := by
  induction columns generalizing r with
  | nil => rfl
  | cons column columns ih =>
    obtain ⟨⟨i, rfl⟩, hcolumns⟩ := List.forall_mem_cons.mp h
    rw [headings, ih hcolumns, List.length_cons, List.range'_succ, List.map_cons]

/-- **The headings**, block by block. -/
theorem columnLabels_ofWellFormed (p : Problem α) : (ofWellFormed p).columnLabels p
    = (List.range p.numVariables).map p.variableName
      ++ (List.range p.numAuxiliary).map (fun k ↦ s!"S{k + 1}")
      ++ (List.range p.numArtificial).map (fun k ↦ s!"A{k + 1}") ++ ["RHS"] := by
  rw [columnLabels, columns_eq_blocks, List.append_assoc, headings_structural,
    headings_auxiliary fun _ ↦ eq_of_mem_block_auxiliary,
    headings_artificial fun _ ↦ eq_of_mem_block_artificial, numAuxiliary_eq_length,
    numArtificial_eq_length]
  simp only [List.range_eq_range', List.append_assoc]

end Headings

/-! ## Rows and their columns -/

section Rows

variable {p : Problem α} {c i k : ℕ} {x : α} {column : Column} {placed placed' : StandardRow α}

/-- **Every row has its columns**, and no others. -/
theorem owns_of_getElem?_rows (h : (ofWellFormed p).rows[i]? = some placed) :
    placed.Owns (ofWellFormed p).columns i := by
  obtain ⟨row, hi, rfl⟩ := exists_of_getElem?_rows h
  refine ⟨fun hle ↦ ?_, fun hge ↦ ?_, fun heq ↦ ?_⟩
  · change row.relation = .le at hle
    refine ⟨p.auxiliaryOf i, ?_, ?_⟩
    · rw [getElem?_columns_auxiliaryOf hi (by rw [hle]; rfl), auxiliaryColumn?_eq, hle]
      rfl
    · simp [NormalRow.place, hle, Relation.hasAuxiliary, Relation.hasArtificial]
  · change row.relation = .ge at hge
    refine ⟨p.auxiliaryOf i, p.artificialOf i, ?_,
      getElem?_columns_artificialOf hi (by rw [hge]; rfl), ?_⟩
    · rw [getElem?_columns_auxiliaryOf hi (by rw [hge]; rfl), auxiliaryColumn?_eq, hge]
      rfl
    · simp [NormalRow.place, hge, Relation.hasAuxiliary, Relation.hasArtificial]
  · change row.relation = .eq at heq
    refine ⟨p.artificialOf i, getElem?_columns_artificialOf hi (by rw [heq]; rfl), ?_⟩
    simp [NormalRow.place, heq, Relation.hasAuxiliary, Relation.hasArtificial]

/-- **An added column has one cell**, in the row that it was added for. -/
theorem getElem?_coefficients_of_owner (hp : p.WellFormed)
    (hc : (ofWellFormed p).columns[c]? = some column) (howner : column.owner? = some (i, x))
    (hk : (ofWellFormed p).rows[k]? = some placed) :
    placed.coefficients[c]? = some (if k = i then x else 0) := by
  obtain ⟨hlt, -⟩ := List.getElem?_eq_some_iff.mp hc
  obtain ⟨row, hrow, -⟩ := exists_of_getElem?_rows hk
  rw [getElem?_eq_cellAt (by rw [length_placed hp hrow hk]; exact hlt), Option.some_inj]
  -- A structural column was added for no constraint; the others are given by the row they are of.
  rcases column_cases hlt with hstructural | ⟨i', row', hi, haux, rfl⟩ | ⟨i', row', hi, hart, rfl⟩
  · rw [getElem?_columns_structural hstructural] at hc
    cases hc
    cases howner
  · rw [getElem?_columns_auxiliaryOf hi haux, auxiliaryColumn?_eq] at hc
    rw [cellAt_placed_auxiliaryOf hp hi haux hrow hk, NormalRow.auxiliaryCoefficient]
    cases hrelation : row'.relation <;> rw [hrelation] at hc <;> cases hc <;> cases howner <;> rfl
  · rw [getElem?_columns_artificialOf hi hart] at hc
    cases hc
    cases howner
    exact cellAt_placed_artificialOf hp hi hart hrow hk

theorem getElem?_coefficients_basic (hp : p.WellFormed)
    (hi : (ofWellFormed p).rows[i]? = some placed)
    (hk : (ofWellFormed p).rows[k]? = some placed') :
    placed'.coefficients[placed.basic]? = some (if k = i then 1 else 0) := by
  obtain ⟨row, hrow, -⟩ := exists_of_getElem?_rows hk
  rw [getElem?_eq_cellAt (by rw [length_placed hp hrow hk]; exact (basic_placed_lt hi).2),
    cellAt_placed_basic hp hi hk]

end Rows

variable {p : Problem α}

/-- **The columns of the standard form.** Of every problem that is well formed the two passes make a
form that is laid out. -/
theorem isLaidOut_standardForm (hp : p.WellFormed) :
    ∃ form, Checked.standardForm p = some (.ok form) ∧ ofProblem p = .ok form
      ∧ form.IsLaidOut p := by
  have hform : ofProblem p = .ok (ofWellFormed p) := by rw [ofProblem, hp]
  refine ⟨ofWellFormed p, by rw [Checked.standardForm_eq, hform], hform, ?_⟩
  exact
    { relations := (map_relation_rows p).trans (map_relation_normalRows p)
      columns := columns_eq_blocks p
      numStructural := numStructural_ofWellFormed p
      numAuxiliary := numAuxiliary_eq_length p
      numArtificial := numArtificial_eq_length p
      owns := owns_of_getElem?_rows
      cells := getElem?_coefficients_of_owner hp
      basic := getElem?_coefficients_basic hp
      isArtificial_iff := isArtificial_ofWellFormed_iff p
      columnLabels := columnLabels_ofWellFormed p }

end StandardForm

/-- Two places to deliver to, the near one in any case and both alike. -/
def delivery : Problem Float where
  sense := .maximize
  objective := [2, 3]
  constraints := [⟨none, [1, 1], .le, 8⟩, ⟨none, [-1, 0], .le, -1⟩, ⟨none, [1, -1], .eq, 0⟩,
    ⟨none, [0, 1], .ge, 2⟩]
  variableNames := ["near", "far"]

/-- The second constraint is turned and so has a surplus and an artificial variable. -/
theorem isLaidOut_standardForm_delivery : delivery.WellFormed ∧ ∃ form,
    Checked.standardForm delivery = some (.ok form) ∧ form.IsLaidOut delivery
      ∧ form.columns = [.structural 0, .structural 1, .slack 0, .surplus 1, .surplus 3,
        .artificial 1, .artificial 2, .artificial 3]
      ∧ form.rows.map (·.basic) = [2, 5, 6, 7]
      ∧ form.columnLabels delivery
        = ["near", "far", "S1", "S2", "S3", "A1", "A2", "A3", "RHS"] := by
  have hp : delivery.WellFormed := by rfl
  obtain ⟨form, hchecked, hform, hlaid⟩ := StandardForm.isLaidOut_standardForm hp
  obtain rfl : .ofWellFormed delivery = form := by
    rw [StandardForm.ofProblem, show delivery.validate = .ok () from hp] at hform
    exact Except.ok.inj hform
  exact ⟨hp, _, hchecked, hlaid, by decide +kernel, by decide +kernel, by decide +kernel⟩

end LinearProgramming
