import LinearProgramming.Proofs.Checked.Engine
import LinearProgramming.Report.Solution

/-!
# Checked printing

The lines of a trace, written with every label looked up. What a run keeps fits the labels of its
columns: all rows are as long as the list of labels, and every column named in a step, be it a basic
one or that of the pivot, has a label in front of the one for the constants.
-/

namespace LinearProgramming

variable {α : Type}

/-! ## Steps that fit their labels -/

/-- That a step of a trace fits a list of labels of which the last one is for the constants. -/
structure Step.Fits (labels : List String) (d : Step α) : Prop where
  pivot_lt : ∀ {i j : ℕ}, d.pivot = some (i, j) → i < d.basis.length ∧ j < labels.length - 1
  basis_lt : ∀ c ∈ d.basis, c < labels.length - 1
  length_grid : d.grid.length = d.basis.length + 1
  length_row : ∀ cells ∈ d.grid, cells.length = labels.length

section Trace

variable {labels : List String} {n : ℕ} {t : Tableau α} {iteration : ℕ} {pivot : Option (ℕ × ℕ)}

theorem Tableau.Shaped.fits (h : t.Shaped n) (hlabels : labels.length = n + 1)
    (hpivot : ∀ {i j : ℕ}, pivot = some (i, j) → i < t.numRows ∧ j < n) :
    (t.toStep iteration pivot).Fits labels := by
  have hpred : labels.length - 1 = n := by rw [hlabels, Nat.add_sub_cancel]
  have hbasis : t.basis.length = t.numRows := List.length_map ..
  refine ⟨fun hij ↦ ?_, ?_, ?_, ?_⟩
  · rw [hpred]
    exact hbasis.symm ▸ hpivot hij
  · rw [hpred]
    exact h.lt_of_mem_basis
  · exact t.length_grid.trans (congrArg (· + 1) hbasis.symm)
  · rw [hlabels]
    exact h.length_of_mem_grid

variable [Scalar α] {s : Settings α} {p : Problem α} {stage : Stage} {r r' : Run α}

theorem Tableau.Shaped.fits_pivot (h : t.Shaped n) (hlabels : labels.length = n + 1) {i j : ℕ}
    {a : TableauRow α} (ha : t.rows[i]? = some a) (hj : j < n) :
    ((t.pivot i j).toStep iteration (some (i, j))).Fits labels := by
  refine (h.pivot ha hj).fits hlabels fun hij ↦ ?_
  obtain ⟨rfl, rfl⟩ := Prod.mk.inj (Option.some_inj.mp hij)
  refine ⟨?_, hj⟩
  rw [numRows, Tableau.pivot, List.length_mapIdx]
  exact (List.getElem?_eq_some_iff.mp ha).1

omit [Scalar α] in
theorem Run.fits_record (hold : ∀ d ∈ r.steps.toList, d.Fits labels) (hsteps : r'.steps = r.steps)
    (hnew : (r'.tableau.toStep r'.iterations pivot).Fits labels) :
    ∀ d ∈ (r'.record s pivot).steps.toList, d.Fits labels := by
  rw [record]
  split_ifs
  · intro d hd
    rw [hsteps, Array.toList_push] at hd
    rcases List.mem_append.mp hd with hd | hd
    · exact hold d hd
    · rw [List.mem_singleton.mp hd]
      exact hnew
  · rwa [hsteps]

/-- **Every step that a run keeps fits the labels of the columns.** -/
theorem Run.Passes.fits (hp : p.WellFormed)
    (hlabels : labels.length = (StandardForm.ofWellFormed p).numColumns + 1)
    (h : Passes s (.ofWellFormed p) stage r) : ∀ d ∈ r.steps.toList, d.Fits labels := by
  induction h with
  | start =>
    exact fits_record (r := ⟨.initial (.ofWellFormed p), 0, #[], #[]⟩) nofun rfl
      ((Tableau.shaped_initial hp).fits hlabels nofun)
  | pivot h hj hi _ ih =>
    have hshaped := h.reached.shaped hp
    obtain ⟨a, ha, -⟩ := Tableau.leavingRow_eq_some hi
    have hlt := (Tableau.enteringColumn_eq_some hj).1
    rw [hshaped.numColumns_eq] at hlt
    exact fits_record ih rfl (hshaped.fits_pivot hlabels ha hlt)
  | turn _ _ _ ih => exact ih
  | pass _ _ ih => exact ih
  | redundant _ _ _ ih => exact ih
  | exchange h hart hj _ ih =>
    have hshaped := h.reached.shaped hp
    obtain ⟨a, ha, -⟩ := Tableau.exists_row_of_basis_any hart
    have hlt := (Tableau.mem_of_replacementColumn_eq_some hj).1
    rw [hshaped.numColumns_eq] at hlt
    exact fits_record ih rfl (hshaped.fits_pivot hlabels ha hlt)
  | enterPhaseTwo h ih =>
    exact fits_record ih rfl ((h.reached.shaped hp).installPhaseTwo.fits hlabels nofun)

end Trace

/-! ## Printing a trace -/

section Print

variable [Reportable α]

omit [Reportable α] in
def Checked.heading (names : List String) (n : ℕ) (d : Step α) : Option String :=
  match d.pivot with
  | some (i, j) => do
    let name ← names[j]?
    return s!"Step {n + 1} ({d.phase.title}): pivot on row {i + 1}, {name} enters"
  | none => some s!"Step {n + 1} ({d.phase.title}): initial tableau"

omit [Reportable α] in
/-- The rows of the grid behind their labels. -/
def Checked.labelledRows (names : List String) (d : Step α) :
    Option (List (String × List α)) := do
  let last ← d.grid.length.ppred
  d.grid.zipIdx.mapM fun (cells, i) ↦ do
    if i = last then return (d.phase.objectiveLetter, cells)
    else return (← names[← d.basis[i]?]?, cells)

def Checked.stepLines (labels names : List String) (n : ℕ) (d : Step α) :
    Option (List String) := do
  let heading ← Checked.heading names n d
  return heading :: Table.lines labels (← Checked.labelledRows names d) ++ [""]

def Checked.traceLines (t : Trace α) : Option (List String) := do
  let names := t.columnLabels.take (← t.columnLabels.length.ppred)
  let blocks ← t.steps.zipIdx.mapM fun (d, n) ↦ Checked.stepLines t.columnLabels names n d
  return blocks.flatten

variable {labels : List String} {d : Step α} {t : Trace α}

omit [Reportable α] in
private theorem getElem?_dropLast {j : ℕ} (hj : j < labels.length - 1) :
    labels.dropLast[j]? = some (columnName labels.dropLast j) := by
  have hlt : j < labels.dropLast.length := by rwa [List.length_dropLast]
  rw [columnName, List.getElem?_eq_getElem hlt]
  rfl

omit [Reportable α] in
theorem heading_eq (h : d.Fits labels) (n : ℕ) :
    Checked.heading labels.dropLast n d = some (d.heading labels.dropLast n) := by
  rw [Checked.heading, Step.heading]
  cases hpivot : d.pivot with
  | none => rfl
  | some ij =>
    simp only [getElem?_dropLast (h.pivot_lt hpivot).2]
    rfl

omit [Reportable α] in
theorem labelledRows_eq (h : d.Fits labels) : Checked.labelledRows labels.dropLast d
    = some ((d.rowLabels labels.dropLast).zip d.grid) := by
  have hlast : d.grid.length.ppred = some d.basis.length := by
    rw [h.length_grid]
    rfl
  have hlength : (d.rowLabels labels.dropLast).length = d.grid.length := by
    rw [Step.rowLabels, List.length_append, List.length_map, List.length_singleton, h.length_grid]
  have hzip : (d.rowLabels labels.dropLast).zip d.grid
      = d.grid.mapIdx fun i cells ↦ ((d.rowLabels labels.dropLast)[i]?.getD "", cells) := by
    refine List.ext_getElem (by rw [List.length_zip, List.length_mapIdx, hlength, min_self])
      fun i hi _ ↦ ?_
    have hlt : i < (d.rowLabels labels.dropLast).length := by
      rw [List.length_zip] at hi
      omega
    rw [List.getElem_zip, List.getElem_mapIdx, List.getElem?_eq_getElem hlt]
    rfl
  rw [Checked.labelledRows, hlast, hzip, List.mapIdx_eq_zipIdx_map]
  refine Checked.mapM_eq fun (cells, i) hmem ↦ ?_
  dsimp only
  have hi : i < d.grid.length := (List.getElem?_eq_some_iff.mp
    (List.mk_mem_zipIdx_iff_getElem?.mp hmem)).1
  rw [h.length_grid] at hi
  by_cases hobjective : i = d.basis.length
  · rw [if_pos hobjective, Step.rowLabels, List.getElem?_append_right
      (by rw [List.length_map, hobjective]), List.length_map, hobjective, Nat.sub_self]
    rfl
  · have hlt : i < d.basis.length := by omega
    have hbasic : d.basis[i]? = some d.basis[i] := List.getElem?_eq_getElem hlt
    rw [if_neg hobjective, Step.rowLabels, List.getElem?_append_left (by rwa [List.length_map]),
      List.getElem?_map, hbasic]
    simp only [Option.bind_eq_bind, Option.bind_some,
      getElem?_dropLast (h.basis_lt _ (List.getElem_mem hlt))]
    rfl

/-- **A step that fits its labels** is printed without looking past an end. -/
theorem stepLines_eq (h : d.Fits labels) (n : ℕ) :
    Checked.stepLines labels labels.dropLast n d = some (d.lines labels n) := by
  rw [Checked.stepLines, heading_eq h, labelledRows_eq h]
  rfl

/-- **A trace whose steps fit its labels** is printed without looking past an end. -/
theorem traceLines_eq (hne : t.columnLabels ≠ []) (h : ∀ d ∈ t.steps, d.Fits t.columnLabels) :
    Checked.traceLines t = some t.lines := by
  obtain ⟨n, hn⟩ : ∃ n, t.columnLabels.length = n + 1 :=
    Nat.exists_eq_succ_of_ne_zero (List.length_pos_of_ne_nil hne).ne'
  have hnames : t.columnLabels.take n = t.columnLabels.dropLast := by
    rw [List.dropLast_eq_take, hn, Nat.add_sub_cancel]
  have hblocks : t.steps.zipIdx.mapM (fun (d, n) ↦
        Checked.stepLines t.columnLabels t.columnLabels.dropLast n d)
      = some (t.steps.zipIdx.map fun (d, n) ↦ d.lines t.columnLabels n) :=
    Checked.mapM_eq fun (d, n) hmem ↦ stepLines_eq (h d (List.fst_mem_of_mem_zipIdx hmem)) n
  rw [Checked.traceLines, hn, Nat.ppred_succ]
  simp only [Option.bind_eq_bind, Option.bind_some, hnames, hblocks]
  rfl

end Print

end LinearProgramming
