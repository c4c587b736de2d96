import LinearProgramming.Proofs.Tableau.Units

/-!
# The shape of a tableau

All rows of a tableau are equally long, the objective row among them, and every basic column is one
of its columns. Nothing a solve does changes this, whatever its arithmetic makes of the cells: a
pivot writes rows of the lengths it finds, and what becomes basic is a column that was chosen from
those there are.

No law of the numbers is used, so the shape is that of any run: with infinite and undefined cells,
and with a tolerance that no number is within.
-/

namespace LinearProgramming

variable {α : Type} [Scalar α]

namespace Tableau

/-- A tableau with `n` columns. -/
structure Shaped (n : ℕ) (t : Tableau α) : Prop where
  length_cells : ∀ {i : ℕ} {a : TableauRow α}, t.rows[i]? = some a → a.cells.length = n + 1
  basic_lt : ∀ {i : ℕ} {a : TableauRow α}, t.rows[i]? = some a → a.basic < n
  length_objective : t.objective.length = n + 1

variable {n i j : ℕ} {t : Tableau α} {a : TableauRow α} {costs : List α} {p : Problem α}

omit [Scalar α] in
theorem Shaped.numColumns_eq (h : t.Shaped n) : t.numColumns = n := by
  rw [numColumns, h.length_objective, Nat.add_sub_cancel]

omit [Scalar α] in
theorem Shaped.length_of_mem (h : t.Shaped n) : ∀ a ∈ t.rows, a.cells.length = n + 1 := by
  intro a ha
  obtain ⟨i, hi⟩ := List.mem_iff_getElem?.mp ha
  exact h.length_cells hi

omit [Scalar α] in
theorem Shaped.length_of_mem_grid (h : t.Shaped n) : ∀ cells ∈ t.grid, cells.length = n + 1 :=
  forall_mem_grid_iff.mpr ⟨h.length_of_mem, h.length_objective⟩

omit [Scalar α] in
theorem Shaped.lt_of_mem_basis (h : t.Shaped n) : ∀ c ∈ t.basis, c < n := by
  rw [basis]
  intro c hc
  obtain ⟨a, ha, rfl⟩ := List.mem_map.mp hc
  obtain ⟨i, hi⟩ := List.mem_iff_getElem?.mp ha
  exact h.basic_lt hi

/-! ## What keeps it -/

/-- **A pivot on one of the columns keeps the shape.** -/
theorem Shaped.pivot (h : t.Shaped n) (ha : t.rows[i]? = some a) (hj : j < n) :
    (t.pivot i j).Shaped n := by
  have hsource : (scaleTo j a.cells).length = n + 1 := by rw [length_scaleTo, h.length_cells ha]
  refine ⟨fun hb ↦ ?_, fun hb ↦ ?_, ?_⟩
  · rcases rows_pivot_cases ha hb with ⟨-, -, hcells⟩ | ⟨-, b, hb, -, hcells⟩
    · rw [hcells, hsource]
    · have hlen := h.length_cells hb
      rw [hcells, length_clearColumn (hsource.trans hlen.symm), hlen]
  · rcases rows_pivot_cases ha hb with ⟨-, hbasic, -⟩ | ⟨-, b, hb, hbasic, -⟩
    · rwa [hbasic]
    · rw [hbasic]
      exact h.basic_lt hb
  · rw [objective_pivot_eq ha, length_clearColumn (hsource.trans h.length_objective.symm),
      h.length_objective]

theorem Shaped.withCosts (h : t.Shaped n) (hcosts : costs.length = n) :
    (t.withCosts costs).Shaped n := by
  have hlen : (costs.map (-·) ++ [0]).length = n + 1 := by
    rw [List.length_append, List.length_map, hcosts, List.length_singleton]
  exact ⟨h.length_cells, h.basic_lt, length_priceOut h.length_of_mem hlen⟩

theorem length_phaseOneCosts (form : StandardForm α) :
    (phaseOneCosts form).length = form.numColumns := by
  rw [phaseOneCosts, List.length_map, List.length_range]

theorem Shaped.installPhaseTwo (h : t.Shaped (StandardForm.ofWellFormed p).numColumns) :
    (t.installPhaseTwo (.ofWellFormed p)).Shaped (StandardForm.ofWellFormed p).numColumns := by
  obtain ⟨hcells, hbasic, hobjective⟩ := h.withCosts (length_phaseTwoCosts p)
  exact ⟨hcells, hbasic, hobjective⟩

/-- The rows of the standard form as rows of a tableau. -/
def laidOut (form : StandardForm α) : Tableau α where
  rows := form.rows.map fun row ↦ { basic := row.basic, cells := row.coefficients ++ [row.rhs] }
  objective := List.replicate (form.numColumns + 1) 0
  phase := .two

theorem initial_eq_laidOut (form : StandardForm α) : initial form
    = if form.hasArtificial then (laidOut form).installPhaseOne form
      else (laidOut form).installPhaseTwo form := rfl

theorem shaped_laidOut (hp : p.WellFormed) :
    (laidOut (.ofWellFormed p)).Shaped (StandardForm.ofWellFormed p).numColumns := by
  refine ⟨fun ha ↦ ?_, fun ha ↦ ?_, List.length_replicate⟩
  · rw [laidOut, List.getElem?_map, Option.map_eq_some_iff] at ha
    obtain ⟨placed, hplaced, rfl⟩ := ha
    rw [List.length_append, List.length_singleton,
      StandardForm.length_of_mem_rows hp (List.mem_of_getElem? hplaced)]
  · rw [laidOut, List.getElem?_map, Option.map_eq_some_iff] at ha
    obtain ⟨placed, hplaced, rfl⟩ := ha
    exact (StandardForm.basic_placed_lt hplaced).2

theorem shaped_initial (hp : p.WellFormed) :
    (initial (.ofWellFormed p)).Shaped (StandardForm.ofWellFormed p).numColumns := by
  rw [initial_eq_laidOut]
  split_ifs
  · obtain ⟨hcells, hbasic, hobjective⟩ :=
      (shaped_laidOut hp).withCosts (length_phaseOneCosts (.ofWellFormed p))
    exact ⟨hcells, hbasic, hobjective⟩
  · exact (shaped_laidOut hp).installPhaseTwo

end Tableau

end LinearProgramming
