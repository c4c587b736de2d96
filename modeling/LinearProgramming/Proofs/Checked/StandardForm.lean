import LinearProgramming.Proofs.Checked.Access
import LinearProgramming.Proofs.StandardForm.Layout

/-!
# Checked standard forms

The standard form as a program builds it: all columns are there from the start, those behind the
structural ones with nothing in them yet, and every row is a row of zeros at first. Going down the
rows, each takes the next free column of the blocks it needs and writes itself into both tables.

A block is as long as there are rows that take one of its columns. So the next free column is always
one of the block, every write has its place, and at the end no column is left empty.
-/

namespace LinearProgramming

namespace Checked

variable {α : Type} [Scalar α]

/-- Write row `i` of a standard form, and its columns into the list of columns. -/
def placeRow (structural total i : ℕ) (row : NormalRow α) (columns : List Column)
    (auxiliary artificial : ℕ) : Option (StandardRow α × List Column) := do
  let placed (coefficients : List α) (auxiliary artificial : Option ℕ) (basic : ℕ) :
      StandardRow α :=
    { coefficients := coefficients, rhs := row.rhs, relation := row.relation
      negated := row.negated, auxiliary := auxiliary, artificial := artificial, basic := basic }
  let full ← copyFront structural row.coefficients (List.replicate total 0)
  match row.relation with
  | .le =>
    let full ← setAt full auxiliary 1
    return (placed full (some auxiliary) none auxiliary, ← setAt columns auxiliary (.slack i))
  | .ge =>
    let full ← setAt full auxiliary (-1)
    let columns ← setAt columns auxiliary (.surplus i)
    let full ← setAt full artificial 1
    return (placed full (some auxiliary) (some artificial) artificial,
      ← setAt columns artificial (.artificial i))
  | .eq =>
    let full ← setAt full artificial 1
    return (placed full none (some artificial) artificial,
      ← setAt columns artificial (.artificial i))

/-- Write the rows from row `i` on, from top to bottom. -/
def placeRows (structural total : ℕ) :
    ℕ → List Column → ℕ → ℕ → List (NormalRow α) → Option (List (StandardRow α) × List Column)
  | _, columns, _, _, [] => some ([], columns)
  | i, columns, auxiliary, artificial, row :: rest => do
    let (placed, columns) ← placeRow structural total i row columns auxiliary artificial
    let (rows, columns) ← placeRows structural total (i + 1) columns
      (auxiliary + row.relation.hasAuxiliary.toNat)
      (artificial + row.relation.hasArtificial.toNat) rest
    return (placed :: rows, columns)

def standardForm (p : Problem α) : Option (Except Malformed (StandardForm α)) :=
  match p.validate with
  | .error fault => some (.error fault)
  | .ok () => do
    let columns := (List.range p.numVariables).map Column.structural
      ++ List.replicate (p.numAuxiliary + p.numArtificial) (.structural 0)
    let (rows, columns) ← placeRows p.numVariables
      (p.numVariables + p.numAuxiliary + p.numArtificial) 0 columns p.numVariables
      (p.numVariables + p.numAuxiliary) p.normalRows
    return .ok
      { sense := p.sense
        objective := match p.sense with
          | .maximize => p.objective
          | .minimize => p.objective.map (-·)
        rows := rows
        columns := columns
        numStructural := p.numVariables
        numAuxiliary := p.numAuxiliary
        numArtificial := p.numArtificial }

/-! ## Writing a row -/

section Place

variable {row : NormalRow α} {start extra i k auxiliary artificial : ℕ} {columns : List Column}

omit [Scalar α] in
theorem setAt_further {coefficients : List α} (hlen : coefficients.length = start)
    (hk : start ≤ k) (hlt : k < start + extra) (f : ℕ → α) (x : α) :
    setAt (coefficients ++ (List.range' start extra).map f) k x
      = some (coefficients
        ++ (List.range' start extra).map fun j ↦ if j = k then x else f j) := by
  subst hlen
  rw [setAt_of_lt (by simp; omega), List.set_append_right _ _ hk]
  refine congrArg (fun l ↦ some (coefficients ++ l)) (List.ext_getElem (by simp) fun j hj _ ↦ ?_)
  simp only [List.getElem_set, List.getElem_map, List.getElem_range', Nat.one_mul]
  exact if_congr (by omega) rfl rfl

theorem copyFront_zeros (hlen : row.coefficients.length = start) :
    copyFront start row.coefficients (List.replicate (start + extra) (0 : α))
      = some (row.coefficients ++ (List.range' start extra).map fun _ ↦ 0) := by
  rw [copyFront_of_length hlen (by rw [List.length_replicate]; omega), List.drop_replicate,
    Nat.add_sub_cancel_left, List.map_const', List.length_range']

/-- The columns that row `i` takes, written into the list of columns. -/
def writeColumns (relation : Relation) (i : ℕ) (columns : List Column) (auxiliary artificial : ℕ) :
    List Column :=
  match relation with
  | .le => columns.set auxiliary (.slack i)
  | .ge => (columns.set auxiliary (.surplus i)).set artificial (.artificial i)
  | .eq => columns.set artificial (.artificial i)

/-- **A row is written** if the columns it takes are further ones, the slack or surplus first. -/
theorem placeRow_eq (auxiliary artificial : ℕ) (hlen : row.coefficients.length = start)
    (hcolumns : columns.length = start + extra)
    (haux : row.relation.hasAuxiliary = true →
      start ≤ auxiliary ∧ auxiliary < start + extra ∧ auxiliary < artificial)
    (hart : row.relation.hasArtificial = true → start ≤ artificial ∧ artificial < start + extra) :
    placeRow start (start + extra) i row columns auxiliary artificial
      = some (row.place start extra auxiliary artificial,
        writeColumns row.relation i columns auxiliary artificial) := by
  rw [placeRow, copyFront_zeros hlen]
  simp only [Option.bind_eq_bind, Option.bind_some]
  cases hrel : row.relation with
  | le =>
    obtain ⟨hge, hlt, -⟩ := haux (by rw [hrel]; rfl)
    simp only [setAt_further hlen hge hlt, setAt_of_lt (hcolumns ▸ hlt), Option.bind_some]
    simp [NormalRow.place, NormalRow.auxiliaryCoefficient, Relation.hasAuxiliary,
      Relation.hasArtificial, writeColumns, hrel]
  | ge =>
    obtain ⟨hge, hlt, hne⟩ := haux (by rw [hrel]; rfl)
    obtain ⟨hge', hlt'⟩ := hart (by rw [hrel]; rfl)
    have hcolumn' : artificial < (columns.set auxiliary (.surplus i)).length := by
      rwa [List.length_set, hcolumns]
    simp only [setAt_further hlen hge hlt, setAt_of_lt (hcolumns ▸ hlt),
      setAt_further hlen hge' hlt', setAt_of_lt hcolumn', Option.bind_some]
    -- Neither of the two columns is the other, so it does not matter which is looked for first.
    have hcell : ∀ j, (if j = artificial then (1 : α) else if j = auxiliary then -1 else 0)
        = if j = auxiliary then -1 else if j = artificial then 1 else 0 := by
      intro j
      by_cases hj : j = auxiliary
      · rw [if_neg (hj ▸ hne.ne), if_pos hj, if_pos hj]
      · rw [if_neg hj, if_neg hj]
    simp [NormalRow.place, NormalRow.auxiliaryCoefficient, Relation.hasAuxiliary,
      Relation.hasArtificial, writeColumns, hrel, hcell]
  | eq =>
    obtain ⟨hge, hlt⟩ := hart (by rw [hrel]; rfl)
    simp only [setAt_further hlen hge hlt, setAt_of_lt (hcolumns ▸ hlt), Option.bind_some]
    simp [NormalRow.place, Relation.hasAuxiliary, Relation.hasArtificial, writeColumns, hrel]

end Place

/-! ## Writing all rows -/

section Rows

variable {start extra i m n : ℕ} {left right : List Column} {rows : List (NormalRow α)}

/-- Two blocks of columns with `m` and `n` of them still to be filled, behind those that are. -/
def blocks (left : List Column) (m : ℕ) (right : List Column) (n : ℕ) : List Column :=
  left ++ (List.replicate m (.structural 0) ++ (right ++ List.replicate n (.structural 0)))

omit [Scalar α] in
@[simp] theorem length_blocks :
    (blocks left m right n).length = left.length + (m + (right.length + n)) := by
  simp [blocks]

omit [Scalar α] in
theorem set_blocks_left (left : List Column) (m : ℕ) (right : List Column) (n : ℕ) (c : Column) :
    (blocks left (m + 1) right n).set left.length c = blocks (left ++ [c]) m right n := by
  rw [blocks, List.set_append_right _ _ (Nat.le_refl _), Nat.sub_self, List.replicate_succ,
    List.cons_append, List.set_cons_zero, blocks, List.append_assoc]
  rfl

omit [Scalar α] in
theorem set_blocks_right (left : List Column) (m : ℕ) (right : List Column) (n : ℕ) (c : Column) :
    (blocks left m right (n + 1)).set (left.length + (m + right.length)) c
      = blocks left m (right ++ [c]) n := by
  have hset := set_blocks_left (left ++ (List.replicate m (.structural 0) ++ right)) n [] 0 c
  simpa [blocks] using hset

omit [Scalar α] in
theorem writeColumns_blocks (row : NormalRow α) :
    writeColumns row.relation i
        (blocks left (m + row.relation.hasAuxiliary.toNat) right
          (n + row.relation.hasArtificial.toNat))
        left.length (left.length + (m + row.relation.hasAuxiliary.toNat + right.length))
      = blocks (left ++ (row.auxiliaryColumn? i).toList) m
        (right ++ (row.artificialColumn? i).toList) n := by
  rw [NormalRow.auxiliaryColumn?, NormalRow.artificialColumn?]
  cases row.relation with
  | le =>
    simpa [Relation.hasAuxiliary, Relation.hasArtificial, writeColumns] using
      set_blocks_left left m right n _
  | ge =>
    have hleft := set_blocks_left left m right (n + 1) (.surplus i)
    have hright := set_blocks_right (left ++ [.surplus i]) m right n (.artificial i)
    rw [← hleft] at hright
    simpa [Relation.hasAuxiliary, Relation.hasArtificial, writeColumns, Nat.add_assoc,
      Nat.add_comm 1] using hright
  | eq =>
    simpa [Relation.hasAuxiliary, Relation.hasArtificial, writeColumns] using
      set_blocks_right left m right n _

omit [Scalar α] in
private theorem length_auxiliaryColumn? (row : NormalRow α) (i : ℕ) :
    (row.auxiliaryColumn? i).toList.length = row.relation.hasAuxiliary.toNat := by
  rw [NormalRow.auxiliaryColumn?]
  cases row.relation <;> rfl

omit [Scalar α] in
private theorem length_artificialColumn? (row : NormalRow α) (i : ℕ) :
    (row.artificialColumn? i).toList.length = row.relation.hasArtificial.toNat := by
  rw [NormalRow.artificialColumn?]
  cases row.relation <;> rfl

/-- **A row fills the first empty columns** of the blocks it needs. -/
theorem placeRow_blocks {row : NormalRow α} (left right : List Column) (i : ℕ)
    (hlen : row.coefficients.length = start) (hstart : start ≤ left.length)
    (htotal : start + extra = (blocks left (m + row.relation.hasAuxiliary.toNat) right
      (n + row.relation.hasArtificial.toNat)).length) :
    placeRow start (start + extra) i row
        (blocks left (m + row.relation.hasAuxiliary.toNat) right
          (n + row.relation.hasArtificial.toNat))
        left.length (left.length + (m + row.relation.hasAuxiliary.toNat + right.length))
      = some (row.place start extra left.length
          (left.length + (m + row.relation.hasAuxiliary.toNat + right.length)),
        blocks (left ++ (row.auxiliaryColumn? i).toList) m
          (right ++ (row.artificialColumn? i).toList) n) := by
  have hsize := length_blocks ▸ htotal
  rw [placeRow_eq _ _ hlen htotal.symm, writeColumns_blocks]
  · intro haux
    rw [haux, Bool.toNat_true] at hsize ⊢
    omega
  · intro hart
    rw [hart, Bool.toNat_true] at hsize
    omega

/-- **Every row finds its columns**, and at the end all columns are filled. -/
theorem placeRows_eq (left right : List Column) (i extra : ℕ)
    (hlen : ∀ row ∈ rows, row.coefficients.length = start)
    (hstart : start ≤ left.length) (hm : m = rows.countP (·.relation.hasAuxiliary))
    (hn : n = rows.countP (·.relation.hasArtificial))
    (htotal : start + extra = (blocks left m right n).length) :
    placeRows start (start + extra) i (blocks left m right n) left.length
        (left.length + (m + right.length)) rows
      = some (NormalRow.placeAll start extra left.length (left.length + (m + right.length)) rows,
        left ++ (rows.zipIdx i).filterMap (fun (row, i) ↦ row.auxiliaryColumn? i)
          ++ (right ++ (rows.zipIdx i).filterMap fun (row, i) ↦ row.artificialColumn? i)) := by
  -- Induction on the rows still to come, of which the empty columns are as many as they take.
  induction rows generalizing left right i m n with
  | nil =>
    subst hm hn
    simp [placeRows, NormalRow.placeAll, blocks]
  | cons row rows ih =>
    have hcount : ∀ q : NormalRow α → Bool,
        (row :: rows).countP q = rows.countP q + (q row).toNat := by
      intro q
      rw [List.countP_cons]
      cases q row <;> rfl
    rw [hcount] at hm hn
    subst hm hn
    have hrow := placeRow_blocks left right i (hlen row List.mem_cons_self) hstart htotal
    rw [length_blocks] at htotal
    have hleft : (left ++ (row.auxiliaryColumn? i).toList).length
        = left.length + row.relation.hasAuxiliary.toNat := by
      rw [List.length_append, length_auxiliaryColumn?]
    have hright : (right ++ (row.artificialColumn? i).toList).length
        = right.length + row.relation.hasArtificial.toNat := by
      rw [List.length_append, length_artificialColumn?]
    have hnext : left.length
          + (rows.countP (·.relation.hasAuxiliary) + row.relation.hasAuxiliary.toNat + right.length)
          + row.relation.hasArtificial.toNat
        = (left ++ (row.auxiliaryColumn? i).toList).length
          + (rows.countP (·.relation.hasAuxiliary)
            + (right ++ (row.artificialColumn? i).toList).length) := by
      omega
    have hrest := ih (left ++ (row.auxiliaryColumn? i).toList)
      (right ++ (row.artificialColumn? i).toList) (i + 1)
      (fun row hrow ↦ hlen row (List.mem_cons_of_mem _ hrow)) (by omega) rfl rfl
      (by rw [length_blocks]; omega)
    rw [placeRows, hrow]
    simp only [Option.bind_eq_bind, Option.bind_some, hnext, ← hleft, hrest,
      NormalRow.placeAll, List.zipIdx_cons]
    have hfilter : ∀ f : NormalRow α × ℕ → Option Column,
        ((row, i) :: rows.zipIdx (i + 1)).filterMap f
          = (f (row, i)).toList ++ (rows.zipIdx (i + 1)).filterMap f := by
      intro f
      rw [List.filterMap_cons]
      cases f (row, i) <;> rfl
    rw [hfilter, hfilter]
    simp only [List.append_assoc]
    rfl

end Rows

/-- **The standard form** is built without reading or writing past an end. -/
theorem standardForm_eq (p : Problem α) : standardForm p = some (StandardForm.ofProblem p) := by
  rw [standardForm, StandardForm.ofProblem]
  cases hvalid : p.validate with
  | error fault => rfl
  | ok =>
    have hlen : ∀ row ∈ p.normalRows, row.coefficients.length = p.numVariables := by
      intro row hrow
      obtain ⟨i, hi⟩ := List.mem_iff_getElem?.mp hrow
      exact StandardForm.length_normalRow hvalid hi
    have hempty : blocks ((List.range p.numVariables).map .structural) p.numAuxiliary []
          p.numArtificial
        = (List.range p.numVariables).map .structural
          ++ List.replicate (p.numAuxiliary + p.numArtificial) (.structural 0) := by
      rw [blocks, List.nil_append, List.replicate_append_replicate]
    have hrows := placeRows_eq ((List.range p.numVariables).map .structural) [] 0
      (p.numAuxiliary + p.numArtificial) hlen (by simp) rfl rfl
      (by simp [Problem.numAuxiliary, Problem.numArtificial])
    rw [← Problem.numAuxiliary, ← Problem.numArtificial, hempty, List.length_map, List.length_range,
      List.length_nil, Nat.add_zero, ← Nat.add_assoc] at hrows
    simp only [Option.bind_eq_bind, hrows]
    rfl

end Checked

end LinearProgramming
