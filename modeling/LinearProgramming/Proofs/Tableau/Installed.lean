import Mathlib.Algebra.Order.Field.Rat
import LinearProgramming.Proofs.Checked.Sheet
import LinearProgramming.Proofs.Run.Represents

/-!
# An installed objective in closed form

Installing an objective writes its costs over the old row and clears the basic columns one after the
other. Where these columns are an identity, the outcome depends on the costs and on the constraint
rows alone: each cell is what the basic variables earn per unit of its column, less what the column
earns itself.

Nothing of the row that was there before enters into it, also where the new one is written over it
cell by cell. For that every one of its cells has to be written: the costs cover all columns, and
the constant is set apart from them. So an installed objective leaves no trace of the ones installed
before it. A tableau that has been turned from one phase to the other and back, however often, is
the one that was turned once, and so is the table of its cells.
-/

namespace LinearProgramming

namespace StandardForm

variable {form : StandardForm ℚ} {c : ℕ}

/-- What a phase counts a unit of column `c` for. Phase one counts artificial variables only, and
phase two structural ones. -/
def cost (form : StandardForm ℚ) : Phase → ℕ → ℚ
  | .one, c => if form.isArtificial c then -1 else 0
  | .two, c => if c < form.numStructural then cellAt form.objective c else 0

/-- That a form has one cost for each structural column, and these columns among its own. -/
structure Costed (form : StandardForm ℚ) : Prop where
  length_objective : form.objective.length = form.numStructural
  numStructural_le : form.numStructural ≤ form.numColumns

theorem Costed.length_costs (h : form.Costed) (phase : Phase) :
    (form.costs phase).length = form.numColumns := by
  cases phase with
  | one => exact Tableau.length_phaseOneCosts form
  | two => exact Tableau.length_phaseTwoCosts_of h.length_objective h.numStructural_le

theorem Costed.cellAt_costs (h : form.Costed) (phase : Phase) (hc : c < form.numColumns) :
    cellAt (form.costs phase) c = form.cost phase c := by
  cases phase with
  | one => exact cellAt_costs_one form hc
  | two =>
    rw [cellAt_costs_two, cost]
    split_ifs with hlt
    · rfl
    · exact cellAt_eq_zero (h.length_objective ▸ not_lt.mp hlt)

theorem costed_ofWellFormed (p : Problem ℚ) : (ofWellFormed p).Costed where
  length_objective := by rw [length_objective, numStructural_ofWellFormed]
  numStructural_le := by
    rw [numStructural_ofWellFormed]
    exact numVariables_le_numColumns p

end StandardForm

/-- Write the objective of a phase over the one that a sheet has, cell by cell. -/
def Sheet.install (form : StandardForm ℚ) (s : Sheet ℚ) : Phase → Option (Sheet ℚ)
  | .one => s.installPhaseOne form
  | .two => s.installPhaseTwo form

namespace Tableau

variable {n : ℕ} {form : StandardForm ℚ} {t : Tableau ℚ} {costs : List ℚ} {cost : ℕ → ℚ}

/-- What the basic variables earn per unit of column `c`, and in the column of constants what they
earn altogether. -/
def earned (t : Tableau ℚ) (cost : ℕ → ℚ) (c : ℕ) : ℚ :=
  (t.rows.map fun row ↦ cost row.basic * cellAt row.cells c).sum

theorem cellAt_objective_withCosts (h : CanonicalRows n t.rows) (hcosts : costs.length = n)
    (hcost : ∀ c < n, cellAt costs c = cost c) (c : ℕ) :
    cellAt (t.withCosts costs).objective c
      = cellAt (costs.map (-·) ++ [0]) c + t.earned cost c := by
  have hfactor : ∀ row ∈ t.rows,
      cellAt (costs.map (-·) ++ [0]) row.basic * cellAt row.cells c
        = -1 * (cost row.basic * cellAt row.cells c) := by
    intro row hrow
    obtain ⟨i, hi⟩ := List.mem_iff_getElem?.mp hrow
    have hlt := h.basic_lt hi
    rw [cellAt_written hcosts hlt, hcost _ hlt, neg_mul, neg_one_mul]
  rw [withCosts, cellAt_priceOut h (length_written hcosts), List.map_congr_left hfactor,
    List.sum_map_mul_left, neg_one_mul, sub_neg_eq_add, earned]

/-- **The installed row in closed form.** -/
theorem objective_withCosts (h : CanonicalRows n t.rows) (hcosts : costs.length = n)
    (hcost : ∀ c < n, cellAt costs c = cost c) :
    (t.withCosts costs).objective
      = (List.range n).map (fun c ↦ t.earned cost c - cost c) ++ [t.earned cost n] := by
  have hcells := cellAt_objective_withCosts h hcosts hcost
  refine eq_of_cellAt (canonical_withCosts h hcosts).length_objective (by simp) fun c hc ↦ ?_
  rw [hcells]
  rcases (Nat.le_of_lt_succ hc).lt_or_eq with hlt | rfl
  · rw [cellAt_written hcosts hlt, hcost c hlt, cellAt_append_left (by simpa using hlt),
      cellAt_map_of_getElem? (List.getElem?_range hlt), neg_add_eq_sub]
  · rw [cellAt_append_singleton (by rw [List.length_map, hcosts]),
      cellAt_append_singleton (by rw [List.length_map, List.length_range]), zero_add]

theorem install_install (phase last : Phase) :
    (t.install form phase).install form last = t.install form last := rfl

theorem foldl_install (phases : List Phase) (last : Phase) :
    (phases.foldl (fun t phase ↦ t.install form phase) t).install form last
      = t.install form last := by
  induction phases generalizing t with
  | nil => rfl
  | cons phase phases ih => rw [List.foldl_cons, ih, install_install]

/-- **Written cell by cell** an objective is the one that is installed. -/
theorem install_sheet (hform : form.Costed) (h : t.Shaped form.numColumns) (phase : Phase) :
    t.sheet.install form phase = some (t.install form phase).sheet := by
  cases phase with
  | one => exact installPhaseOne_sheet h
  | two => exact installPhaseTwo_sheet_of hform.length_objective hform.numStructural_le h

theorem Shaped.install (hform : form.Costed) (h : t.Shaped form.numColumns) (phase : Phase) :
    (t.install form phase).Shaped form.numColumns := by
  obtain ⟨hcells, hbasic, hobjective⟩ := h.withCosts (hform.length_costs phase)
  exact ⟨hcells, hbasic, hobjective⟩

theorem foldlM_install_sheet (hform : form.Costed) (h : t.Shaped form.numColumns)
    (phases : List Phase) (last : Phase) :
    (phases ++ [last]).foldlM (Sheet.install form) t.sheet
      = some (t.install form last).sheet := by
  induction phases generalizing t with
  | nil =>
    rw [List.nil_append, List.foldlM_cons, install_sheet hform h]
    rfl
  | cons phase phases ih =>
    rw [List.cons_append, List.foldlM_cons, install_sheet hform h, ← install_install phase last]
    exact ih (h.install hform phase)

/-- **Installing an objective.** The two installs are one operation with the costs of either phase.
On constraint rows whose basic columns are an identity it gives every cell of the objective row what
the basic variables earn per unit of the column less the cost of the column, gives the constant what
they earn altogether, and leaves a zero in every basic column. The constraint rows stay as they are,
and whatever objectives have been installed before, the tableau is the same as without them. Written
cell by cell over an objective row of the right length, they come to the same. -/
theorem objective_install (hform : form.Costed) (h : CanonicalRows form.numColumns t.rows) :
    t.install form .one = t.installPhaseOne form ∧ t.install form .two = t.installPhaseTwo form
      ∧ ∀ phase,
        (t.install form phase).objective
            = (List.range form.numColumns).map
                (fun c ↦ t.earned (form.cost phase) c - form.cost phase c)
              ++ [t.earned (form.cost phase) form.numColumns]
          ∧ (∀ b ∈ t.basis, cellAt (t.install form phase).objective b = 0)
          ∧ (t.install form phase).rows = t.rows ∧ (t.install form phase).phase = phase
          ∧ ∀ phases : List Phase,
            (phases.foldl (fun t phase ↦ t.install form phase) t).install form phase
                = t.install form phase
              ∧ (t.objective.length = form.numColumns + 1 →
                (phases ++ [phase]).foldlM (Sheet.install form) t.sheet
                  = some (t.install form phase).sheet) := by
  refine ⟨rfl, rfl, fun phase ↦ ⟨?_, ?_, rfl, rfl, fun phases ↦ ⟨foldl_install phases phase,
    fun hobjective ↦ ?_⟩⟩⟩
  · exact objective_withCosts h (hform.length_costs phase) fun c ↦ hform.cellAt_costs phase
  · intro b hb
    obtain ⟨a, ha, rfl⟩ := List.mem_map.mp hb
    obtain ⟨i, hi⟩ := List.mem_iff_getElem?.mp ha
    exact (canonical_withCosts h (hform.length_costs phase)).objective_basic hi
  · exact foldlM_install_sheet hform ⟨h.length_cells, h.basic_lt, hobjective⟩ phases phase

/-- A bound from below and an equality, both of which need an artificial variable. -/
def rationed : Problem ℚ where
  sense := .minimize
  objective := [2, 3]
  constraints := [⟨none, [1, 1], .ge, 4⟩, ⟨none, [1, -1], .eq, 1⟩]
  variableNames := []

/-- The first tableau after a pivot, with nines written all over its objective row. -/
def defaced : Tableau ℚ :=
  { (initial (.ofWellFormed rationed)).pivot 1 0 with objective := [9, 9, 9, 9, 9, 9] }

theorem objective_install_defaced : (StandardForm.ofWellFormed rationed).Costed
    ∧ CanonicalRows (StandardForm.ofWellFormed rationed).numColumns defaced.rows
    ∧ defaced.rows.map (·.cells) = [[0, 2, -1, 1, -1, 3], [1, -1, 0, 0, 1, 1]]
    ∧ (defaced.installPhaseOne (.ofWellFormed rationed)).objective = [0, -2, 1, 0, 2, -3]
    ∧ (defaced.installPhaseTwo (.ofWellFormed rationed)).objective = [0, 5, 0, 0, -2, -2]
    ∧ (((defaced.installPhaseTwo (.ofWellFormed rationed)).installPhaseOne
        (.ofWellFormed rationed)).installPhaseTwo (.ofWellFormed rationed))
      = defaced.installPhaseTwo (.ofWellFormed rationed)
    ∧ defaced.objective.length = (StandardForm.ofWellFormed rationed).numColumns + 1
    ∧ defaced.sheet.installPhaseTwo (.ofWellFormed rationed)
      = some (defaced.installPhaseTwo (.ofWellFormed rationed)).sheet := by
  have hp : rationed.WellFormed := rfl
  have hform := StandardForm.costed_ofWellFormed rationed
  have hrows : CanonicalRows (StandardForm.ofWellFormed rationed).numColumns defaced.rows := by
    refine canonicalRows_pivot (represents_initial hp).canonical.rows (i := 1) (j := 0)
      (p := ⟨4, [1, -1, 0, 0, 1, 1]⟩) ?_ (by decide) (by decide +kernel)
    rw [rows_initial]
    rfl
  obtain ⟨hone, htwo, hinstall⟩ := objective_install hform hrows
  obtain ⟨hfirst, -, -, -, -⟩ := hinstall .one
  obtain ⟨hsecond, -, -, -, hagain⟩ := hinstall .two
  have hlength : defaced.objective.length
      = (StandardForm.ofWellFormed rationed).numColumns + 1 := by
    decide +kernel
  have hwritten := (hagain []).2 hlength
  refine ⟨hform, hrows, by decide +kernel, ?_, ?_, (hagain [.two, .one]).1, hlength, ?_⟩
  · rw [← hone, hfirst]
    decide +kernel
  · rw [← htwo, hsecond]
    decide +kernel
  · rw [List.nil_append, List.foldlM_cons] at hwritten
    obtain ⟨sheet, hsheet, hsame⟩ := Option.bind_eq_some_iff.mp hwritten
    obtain rfl := Option.some_inj.mp hsame
    exact hsheet

end Tableau

end LinearProgramming
