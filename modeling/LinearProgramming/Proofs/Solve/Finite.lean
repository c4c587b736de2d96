import LinearProgramming.Proofs.Json.Numbers
import LinearProgramming.Proofs.Run.Finite
import LinearProgramming.Proofs.Scalar.DoubleSigns
import LinearProgramming.Proofs.Solve.Replay

/-!
# Finite solutions

Every number that a solution reports is read from one cell of the last tableau, and rounding residue
away or changing a sign makes no difference to whether it is finite. So a solution is written
without `null` in the place of a number exactly if these cells are finite.

Nothing in a solve makes sure that they are: a problem is checked to be finite, its tableaus are
not. But a number does not get lost before another one has been large. If the numbers of the problem
and of all tableaus that are finite are moderate, all tableaus are finite.
-/

open LinearProgramming.Double

namespace LinearProgramming

/-! ## What a solution is read from -/

namespace Tableau

variable {α : Type} [Scalar α]

/-- The constants of the rows in which variables of the problem are basic, residue included. -/
def constants (form : StandardForm α) (t : Tableau α) : List α :=
  t.rows.foldl (fun values row ↦ values.set row.basic (t.constantOf row.cells))
    (List.replicate form.numStructural 0)

/-- The cells that a solution is read from, in the order in which it reports them. -/
def readings (form : StandardForm α) (t : Tableau α) : List α :=
  t.constants form ++ [t.objectiveValue] ++ (form.rows.map t.rowPrice
    ++ (t.constants form).zipIdx.flatMap fun (value, j) ↦
      [value, if t.basis.contains j then 0 else cellAt t.objective j])

variable {t : Tableau α} {form : StandardForm α} {ε : α} {P : α → Prop}

theorem structuralValues_eq_map :
    t.structuralValues form ε = (t.constants form).map (Scalar.snap ε) := by
  have hsnap : Scalar.snap ε (0 : α) = 0 := by
    rw [Scalar.snap]
    split_ifs <;> rfl
  have hfold : ∀ (rows : List (TableauRow α)) (values : List α),
      rows.foldl (fun values row ↦ values.set row.basic (Scalar.snap ε (t.constantOf row.cells)))
          (values.map (Scalar.snap ε))
        = (rows.foldl (fun values row ↦ values.set row.basic (t.constantOf row.cells))
            values).map (Scalar.snap ε) := by
    intro rows
    induction rows with
    | nil => exact fun _ ↦ rfl
    | cons row rows ih =>
      intro values
      rw [List.foldl_cons, List.foldl_cons, ← List.map_set, ih]
  rw [structuralValues, constants, ← hfold, List.map_replicate, hsnap]

section Pattern

variable [Scalar.LawfulNeg α] (hsnap : ∀ x, Scalar.isFinite (Scalar.snap ε x) = Scalar.isFinite x)

include hsnap

theorem isFinite_shadowPrice (row : StandardRow α) :
    Scalar.isFinite (t.shadowPrice form ε row) = Scalar.isFinite (t.rowPrice row) := by
  rw [shadowPrice, hsnap]
  split_ifs <;> simp only [Scalar.LawfulNeg.isFinite_neg]

omit [Scalar.LawfulNeg α] in
theorem isFinite_reducedCost (j : ℕ) : Scalar.isFinite (t.reducedCost ε j)
    = Scalar.isFinite (if t.basis.contains j then 0 else cellAt t.objective j) := by
  rw [reducedCost]
  split_ifs
  · rfl
  · exact hsnap _

/-- **Each number that is reported** is finite exactly if the cell it is read from is. -/
theorem map_isFinite_toSolution (p : Problem α) (iterations : ℕ) :
    (t.toSolution p form ε iterations).numbers.map Scalar.isFinite
      = (t.readings form).map Scalar.isFinite := by
  have hvalues : (t.structuralValues form ε).map Scalar.isFinite
      = (t.constants form).map Scalar.isFinite := by
    rw [structuralValues_eq_map, List.map_map]
    exact congrArg (List.map · _) (funext hsnap)
  have hobjective : Scalar.isFinite (if form.signFlipped then -t.objectiveValue
      else t.objectiveValue) = Scalar.isFinite t.objectiveValue := by
    split_ifs
    · exact Scalar.LawfulNeg.isFinite_neg _
    · rfl
  have hprices : ((t.analysis p form ε).shadowPrices.map (·.value)).map Scalar.isFinite
      = (form.rows.map t.rowPrice).map Scalar.isFinite := by
    rw [analysis, List.mapIdx_eq_zipIdx_map, List.map_map, List.map_map, List.map_map,
      ← List.zipIdx_map_fst 0 form.rows, List.map_map, List.zipIdx_map_fst]
    exact congrArg (List.map · _) (funext fun (row, _) ↦ isFinite_shadowPrice hsnap row)
  have hcosts : ((t.analysis p form ε).reducedCosts.flatMap fun cost ↦ [cost.value, cost.cost]).map
        Scalar.isFinite
      = ((t.constants form).zipIdx.flatMap fun (value, j) ↦
          [value, if t.basis.contains j then 0 else cellAt t.objective j]).map Scalar.isFinite := by
    simp only [analysis]
    rw [List.mapIdx_eq_zipIdx_map, structuralValues_eq_map, List.zipIdx_map, List.map_map,
      List.flatMap_map, List.map_flatMap, List.map_flatMap]
    refine congrArg (List.flatMap · _) (funext fun (value, j) ↦ ?_)
    simp [hsnap, isFinite_reducedCost hsnap j]
  simp only [Solution.numbers, toSolution, readings, Analysis.numbers, Option.getD_some,
    Option.toList_some, Option.elim_some, List.map_append, List.map_cons, List.map_nil, hvalues,
    hobjective, hprices, hcosts]

end Pattern

theorem forall_mem_constants (hzero : P 0) (h : ∀ a ∈ t.rows, ∀ x ∈ a.cells, P x) :
    ∀ x ∈ t.constants form, P x := by
  have hfold : ∀ rows : List (TableauRow α), (∀ a ∈ rows, ∀ x ∈ a.cells, P x) →
      ∀ values : List α, (∀ x ∈ values, P x) → ∀ x ∈ rows.foldl
        (fun values row ↦ values.set row.basic (t.constantOf row.cells)) values, P x := by
    intro rows
    induction rows with
    | nil => exact fun _ _ hvalues ↦ hvalues
    | cons row rows ih =>
      intro hrows values hvalues
      refine ih (fun a ha ↦ hrows a (List.mem_cons_of_mem _ ha)) _ fun x hx ↦ ?_
      rcases List.mem_or_eq_of_mem_set hx with hx | rfl
      · exact hvalues x hx
      · exact cellAt_of_forall_mem hzero (hrows row List.mem_cons_self) _
  exact hfold t.rows h _ fun x hx ↦ List.eq_of_mem_replicate hx ▸ hzero

/-- What holds of all cells holds of those that are read. -/
theorem forall_mem_readings (hzero : P 0) (hneg : ∀ x, P x → P (-x))
    (h : ∀ cells ∈ t.grid, ∀ x ∈ cells, P x) : ∀ x ∈ t.readings form, P x := by
  obtain ⟨hrows, hlast⟩ := forall_mem_grid_iff.mp h
  have hobjective : ∀ j, P (cellAt t.objective j) := cellAt_of_forall_mem hzero hlast
  have hconstants : ∀ x ∈ t.constants form, P x := forall_mem_constants hzero hrows
  have hprices : ∀ row : StandardRow α, P (t.rowPrice row) := by
    intro row
    rw [rowPrice.eq_def]
    split
    · exact hobjective _
    · exact hneg _ (hobjective _)
    · exact hobjective _
    · exact hzero
  intro x hx
  simp only [readings, List.mem_append, List.mem_map, List.mem_flatMap, List.mem_cons,
    List.not_mem_nil, or_false] at hx
  rcases hx with (hx | rfl) | ⟨row, -, rfl⟩ | ⟨⟨value, j⟩, hvalue, rfl | rfl⟩
  · exact hconstants x hx
  · exact hobjective _
  · exact hprices row
  · exact hconstants _ (List.fst_mem_of_mem_zipIdx hvalue)
  · dsimp only
    split_ifs
    · exact hzero
    · exact hobjective j

end Tableau

/-- **The last tableau of a trail** is what the solution of an optimal run is read from. -/
theorem exists_last_trail {α : Type} [Scalar α] {s : Settings α} {p : Problem α}
    {sol : Solution α} (h : solve s p = .ok sol) (hstatus : sol.status = .optimal) :
    ∃ last ∈ (trail s (.ofWellFormed p)).getLast?,
      sol.untraced = last.tableau.toSolution p (.ofWellFormed p) s.tolerance last.iteration := by
  obtain ⟨sol', h', huntraced⟩ := exists_solve_trace h true
  obtain ⟨-, r, hrun, hsol, -⟩ := exists_finished_of_solve h'
  have hends := Run.endsOrStops_complete { s with trace := true } (.ofWellFormed p)
  rw [hrun] at hends
  obtain ⟨hreplays, -⟩ := Run.Ends.replays rfl hends
  obtain ⟨pivot, hlast⟩ := hreplays.last
  have hstatus' : sol'.status = .optimal := (congrArg Solution.status huntraced).trans hstatus
  refine ⟨r.tableau.toStep r.iterations pivot, ?_, ?_⟩
  · rw [trail, hrun]
    exact hlast
  · rw [← huntraced, hsol, hstatus', Run.untraced_toSolution, Tableau.tableau_toStep]
    rfl

theorem Double.isFinite_snap {ε : Float} (hε : Scalar.isFinite ε = true) (x : Float) :
    Scalar.isFinite (Scalar.snap ε x) = Scalar.isFinite x := by
  rw [Scalar.snap]
  split_ifs with hle
  · have hwithin : Within (size ε.toModel.unpack) x :=
      within_of_abs_le ⟨fits_unpack _, hε, le_rfl⟩ hle
    rw [hwithin.isFinite]
    rfl
  · rfl

/-! ## The numbers of a solution -/

/-- **No number is lost without another one having been large.** At an optimum each reported number
is finite exactly if the cell of the last tableau that it is read from is, and the JSON form has
`null` in the place of a number exactly if one of these cells is not finite. If one is not, there
are a great many constraints, or a number of the problem is not moderate, or the solve went through
a tableau that was still finite and had a number in it that is not moderate. -/
theorem isFinite_numbers_of_solve {s : Settings Float} (hε : 1e-9 ≤ s.tolerance)
    (hfinite : Scalar.isFinite s.tolerance = true) {p : Problem Float} {sol : Solution Float}
    (h : solve s p = .ok sol) (hstatus : sol.status = .optimal) :
    ∃ last ∈ (trail s (.ofWellFormed p)).getLast?,
      sol.numbers.map Scalar.isFinite
          = (last.tableau.readings (.ofWellFormed p)).map Scalar.isFinite
      ∧ ((∃ x ∈ sol.untraced.toJson.numbers, Json.numberText x = "null".toList)
        ↔ ∃ x ∈ last.tableau.readings (.ofWellFormed p), Scalar.isFinite x = false)
      ∧ ((∃ x ∈ last.tableau.readings (.ofWellFormed p), Scalar.isFinite x = false) →
        2 ^ 52 ≤ p.numConstraints ∨ (∃ x ∈ p.numbers, ¬Moderate x)
          ∨ ∃ step ∈ trail s (.ofWellFormed p), step.tableau.Finite
            ∧ ∃ cells ∈ step.tableau.grid, ∃ x ∈ cells, ¬Moderate x) := by
  obtain ⟨last, hlast, hsol⟩ := exists_last_trail h hstatus
  have hpattern : sol.numbers.map Scalar.isFinite
      = (last.tableau.readings (.ofWellFormed p)).map Scalar.isFinite := by
    change sol.untraced.numbers.map _ = _
    rw [hsol]
    exact Tableau.map_isFinite_toSolution (Double.isFinite_snap hfinite) p _
  have hmem : ∀ xs : List Float,
      (∃ x ∈ xs, Scalar.isFinite x = false) ↔ false ∈ xs.map Scalar.isFinite :=
    fun _ ↦ List.mem_map.symm
  refine ⟨last, hlast, hpattern, ?_, fun ⟨x, hx, hlost⟩ ↦ ?_⟩
  · simp only [Solution.numbers_toJson, Json.numberText_eq_null_iff]
    rw [hmem, hmem, hpattern]
  · by_contra! hnone
    obtain ⟨hm, hnumbers, htrail⟩ := hnone
    rw [Option.mem_def, List.getLast?_eq_getElem?] at hlast
    have hcells : last.tableau.Finite := finite_of_getElem?_trail (exists_finished_of_solve h).1 hm
      hε hnumbers htrail hlast
    have hall : Scalar.isFinite x = true := Tableau.forall_mem_readings
      (P := fun x ↦ Scalar.isFinite x = true) rfl (fun _ ↦ Scalar.ExactUnits.isFinite_neg) hcells
      x hx
    cases hlost.symm.trans hall

/-- Two products in thousandths, one of them with a minimum. -/
def thousandths : Problem Float where
  sense := .maximize
  objective := [0.003, 0.007]
  constraints := [⟨none, [0.001, 0.002], .le, 4⟩, ⟨none, [3, 1], .ge, 6⟩]
  variableNames := []

/-- All numbers stay moderate here, so nothing is written as `null`. -/
theorem isFinite_numbers_of_solve_thousandths :
    (1e-9 : Float) ≤ Settings.standard.tolerance
    ∧ Scalar.isFinite (Settings.standard (α := Float)).tolerance = true
    ∧ ∃ sol, solve .standard thousandths = .ok sol ∧ sol.status = .optimal
      ∧ sol.numbers.length = 9
      ∧ ∀ x ∈ sol.untraced.toJson.numbers, Json.numberText x ≠ "null".toList := by
  have hε : (1e-9 : Float) ≤ Settings.standard.tolerance := by decide +kernel
  have hfinite : Scalar.isFinite (Settings.standard (α := Float)).tolerance = true := by
    decide +kernel
  have hnumbers : ∀ x ∈ thousandths.numbers, Moderate x := by decide +kernel
  have hall : (trail .standard (.ofWellFormed thousandths)).all
      (fun step ↦ step.tableau.grid.all fun cells ↦ cells.all fun x ↦ decide (Moderate x))
        = true := by
    decide +kernel
  obtain ⟨sol, hsol, hread⟩ := exists_solve_eq_of_map (s := .standard) (p := thousandths)
    (f := fun sol ↦ (sol.status, sol.numbers.length)) (b := (.optimal, 9)) (by decide +kernel)
  obtain ⟨hstatus, hlength⟩ := Prod.mk.inj hread
  obtain ⟨last, -, -, hnull, hcause⟩ := isFinite_numbers_of_solve hε hfinite hsol hstatus
  refine ⟨hε, hfinite, sol, hsol, hstatus, hlength, fun x hx hnone ↦ ?_⟩
  rcases hcause (hnull.mp ⟨x, hx, hnone⟩) with hm | ⟨y, hy, hlarge⟩
    | ⟨step, hstep, -, cells, hcells, y, hy, hlarge⟩
  · exact absurd hm (by decide)
  · exact hlarge (hnumbers y hy)
  · have hmoderate := List.all_eq_true.mp (List.all_eq_true.mp
      (List.all_eq_true.mp hall step hstep) cells hcells) y hy
    exact hlarge (of_decide_eq_true hmoderate)

/-- Three products, each made once, whose gains and losses are near the end of the range. -/
def brim : Problem Float where
  sense := .maximize
  objective := [8.98846567431158e307, -8.98846567431158e307, 8.98846567431158e307]
  constraints := [⟨none, [1, 0, 0], .eq, 1⟩, ⟨none, [0, 0, 1], .eq, 1⟩, ⟨none, [0, 1, 0], .eq, 1⟩]
  variableNames := []

/-- **An infinite optimum of a finite problem.** The two gains are added up before the loss is taken
away, though all three together are finite, and `null` is written for the objective. -/
theorem objectiveValue_not_finite_brim : brim.WellFormed ∧ ∃ sol, solve .standard brim = .ok sol
    ∧ sol.status = .optimal ∧ sol.values = some [1, 1, 1]
    ∧ brim.evaluate [1, 1, 1] = 8.98846567431158e307
    ∧ (∃ x, sol.objectiveValue = some x ∧ Scalar.isFinite x = false)
    ∧ ∃ x ∈ sol.untraced.toJson.numbers, Json.numberText x = "null".toList := by
  obtain ⟨sol, hsol, hread⟩ := exists_solve_eq_of_map (s := .standard) (p := brim)
    (f := fun sol ↦ (sol.status, sol.values, sol.objectiveValue.map Scalar.isFinite))
    (b := (.optimal, some [1, 1, 1], some false)) (by decide +kernel)
  simp only [Prod.mk.injEq] at hread
  obtain ⟨hstatus, hvalues, hobjective⟩ := hread
  obtain ⟨x, hx, hlost⟩ := Option.map_eq_some_iff.mp hobjective
  have hmem : x ∈ sol.untraced.toJson.numbers := by
    rw [Solution.numbers_toJson, Solution.numbers, hx]
    simp
  exact ⟨(exists_finished_of_solve hsol).1, sol, hsol, hstatus, hvalues, by decide +kernel,
    ⟨x, hx, hlost⟩, x, hmem, (Json.numberText_eq_null_iff x).mpr hlost⟩

end LinearProgramming
