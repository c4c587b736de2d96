import Mathlib.Algebra.Order.Ring.Abs
import LinearProgramming.Proofs.Solve.Exact
import LinearProgramming.Proofs.Solve.Tolerance

/-!
# How far a reported optimum is from one

With a tolerance above zero the reported objective and the reported values need not go together: the
values are rounded to zero near zero and the objective is not. Nor need the values be feasible, see
`LinearProgramming.isFeasible_iff_of_solve`. What remains true rests on the rows of the last tableau
alone, which state the problem exactly.

The objective is that of the basic solution, so rounding separates it from the values by at most the
tolerance for each unit of cost. And no cost of the last tableau is below the negated tolerance, so
a feasible point is better by at most the tolerance for each unit of it and of the room it leaves in
the constraints.
-/

open Finset

namespace LinearProgramming

/-! ## Sums over positions -/

theorem sum_map_eq_sum_range {β : Type} (l : List β) (f : β → ℚ) :
    (l.map f).sum = ∑ c ∈ range l.length, (l[c]?.map f).getD 0 := by
  induction l with
  | nil => rfl
  | cons a l ih =>
    rw [List.map_cons, List.sum_cons, ih, List.length_cons, sum_range_succ', add_comm]
    rfl

theorem sum_map_cellAt (xs : List ℚ) (f : ℚ → ℚ) :
    (xs.map f).sum = ∑ c ∈ range xs.length, f (cellAt xs c) := by
  rw [sum_map_eq_sum_range]
  refine sum_congr rfl fun c hc ↦ ?_
  rw [List.getElem?_eq_getElem (mem_range.mp hc), cellAt_eq_getElem (mem_range.mp hc)]
  rfl

/-- Points that are nowhere further apart than `ε` are worth the same up to `ε` for each unit of
cost. -/
theorem Problem.abs_evaluate_sub_le (p : Problem ℚ) {x y : List ℚ} {ε : ℚ}
    (h : ∀ c < p.numVariables, |cellAt x c - cellAt y c| ≤ ε) :
    |p.evaluate x - p.evaluate y| ≤ ε * (p.objective.map (|·|)).sum := by
  have hdiff : p.evaluate x - p.evaluate y
      = ∑ c ∈ range p.numVariables, cellAt p.objective c * (cellAt x c - cellAt y c) := by
    rw [evaluate, evaluate, Scalar.dot_eq_sum (le_refl p.numVariables),
      Scalar.dot_eq_sum (le_refl p.numVariables), ← sum_sub_distrib]
    exact sum_congr rfl fun c _ ↦ (mul_sub ..).symm
  rw [hdiff, sum_map_cellAt, mul_sum]
  refine (abs_sum_le_sum_abs _ _).trans (sum_le_sum fun c hc ↦ ?_)
  rw [abs_mul, mul_comm ε]
  exact mul_le_mul_of_nonneg_left (h c (mem_range.mp hc)) (abs_nonneg _)

/-! ## What an extension sums to -/

namespace StandardForm

variable {p : Problem ℚ} {x : List ℚ}

/-- What the extension of a point puts in a column. -/
def valueIn (p : Problem ℚ) (x : List ℚ) : Column → ℚ
  | .structural j => cellAt x j
  | .slack i | .surplus i => (p.normalRows[i]?.map (·.room x)).getD 0
  | .artificial _ => 0

theorem extension_eq (p : Problem ℚ) (x : List ℚ) (c : ℕ) :
    extension p x c = ((ofWellFormed p).columns[c]?.map (valueIn p x)).getD 0 := by
  rw [extension]
  cases (ofWellFormed p).columns[c]? with
  | none => rfl
  | some column => cases column <;> rfl

private theorem sum_auxiliary (rows : List (NormalRow ℚ)) (start : ℕ)
    (h : ∀ (i : ℕ) (row : NormalRow ℚ), rows[i]? = some row →
      p.normalRows[start + i]? = some row) :
    (((rows.zipIdx start).filterMap fun (row, i) ↦ row.auxiliaryColumn? i).map (valueIn p x)).sum
      = ((rows.filter (·.relation.hasAuxiliary)).map (·.room x)).sum := by
  induction rows generalizing start with
  | nil => rfl
  | cons row rows ih =>
    have hrow : p.normalRows[start]? = some row := h 0 row rfl
    have hrest := ih (start + 1) fun i row hi ↦ by
      rw [Nat.add_right_comm]
      exact h (i + 1) row hi
    rw [List.zipIdx_cons, List.filterMap_cons]
    simp only [NormalRow.auxiliaryColumn?]
    cases hrel : row.relation with
    | eq =>
      rw [List.filter_cons_of_neg (by rw [hrel]; decide)]
      exact hrest
    | le =>
      rw [List.filter_cons_of_pos (by rw [hrel]; rfl), List.map_cons, List.map_cons, List.sum_cons,
        List.sum_cons, ← hrest, valueIn, hrow]
      rfl
    | ge =>
      rw [List.filter_cons_of_pos (by rw [hrel]; rfl), List.map_cons, List.map_cons, List.sum_cons,
        List.sum_cons, ← hrest, valueIn, hrow]
      rfl

private theorem sum_artificial (rows : List (NormalRow ℚ)) :
    ((rows.zipIdx.filterMap fun (row, i) ↦ row.artificialColumn? i).map (valueIn p x)).sum = 0 := by
  refine List.sum_eq_zero ?_
  rw [List.forall_mem_map]
  intro column hcolumn
  obtain ⟨⟨row, i⟩, -, hi⟩ := List.mem_filterMap.mp hcolumn
  simp only [NormalRow.artificialColumn?] at hi
  split_ifs at hi
  obtain rfl := Option.some_inj.mp hi
  rfl

/-- **An extension sums to its point** and the room of the rows that have a slack or surplus. -/
theorem sum_extension (hlen : x.length = p.numVariables) :
    ∑ c ∈ range (ofWellFormed p).numColumns, extension p x c = x.sum
      + ((p.normalRows.filter (·.relation.hasAuxiliary)).map (·.room x)).sum := by
  have hstructural : ((List.range p.numVariables).map Column.structural).map (valueIn p x) = x := by
    rw [List.map_map]
    refine eq_of_cellAt (by rw [List.length_map, List.length_range]) hlen fun c hc ↦ ?_
    rw [cellAt_map_of_getElem? (List.getElem?_range hc)]
    rfl
  rw [sum_congr rfl fun c _ ↦ extension_eq p x c, numColumns, ← sum_map_eq_sum_range,
    columns_ofWellFormed, List.map_append, List.map_append, List.sum_append, List.sum_append,
    hstructural, sum_auxiliary p.normalRows 0 fun i row hi ↦ by rwa [Nat.zero_add],
    sum_artificial, add_zero]

end StandardForm

/-! ## Reported optima -/

section

variable {s : Settings ℚ} {p : Problem ℚ} {sol : Solution ℚ} {t : Tableau ℚ} {ε : ℚ} {y : List ℚ}

/-- The room that rows with a slack or surplus have is at most what separates the two sides of the
constraints that are not equalities. -/
theorem Problem.sum_room_le (p : Problem ℚ) (y : List ℚ) :
    ((p.normalRows.filter (·.relation.hasAuxiliary)).map (·.room y)).sum
      ≤ ((p.constraints.filter (·.relation ≠ .eq)).map fun con ↦ |con.rhs - con.lhs y|).sum := by
  have hfilter : p.normalRows.filter (·.relation.hasAuxiliary)
      = (p.constraints.filter (·.relation ≠ .eq)).map (·.normalize) := by
    rw [normalRows, List.filter_map]
    refine congrArg (List.map _) (List.filter_congr fun con _ ↦ ?_)
    exact con.hasAuxiliary_normalize
  rw [hfilter, List.map_map]
  exact List.sum_le_sum fun con _ ↦ con.room_normalize_le y

/-- Rounding separates the reported values from the basic solution by no more than the tolerance. -/
theorem Tableau.abs_evaluate_structuralValues_le (hε : 0 ≤ ε)
    (h : t.Represents (.ofWellFormed p)) :
    |p.evaluate (StandardForm.point p t.basicSolution)
        - p.evaluate (t.structuralValues (.ofWellFormed p) ε)|
      ≤ ε * (p.objective.map (|·|)).sum := by
  refine p.abs_evaluate_sub_le fun c hc ↦ ?_
  rw [cellAt_structuralValues _ _ h.canonical.rows hc, Scalar.snap_eq_sub,
    ← StandardForm.extends_point p _ c hc, sub_sub_cancel]
  split_ifs with hsmall
  · exact hsmall
  · rwa [abs_zero]

/-- No feasible point is worth more than the basic solution by more than the tolerance for each unit
of it and of the room it leaves. -/
theorem Tableau.signed_evaluate_le_add (hε : 0 ≤ ε) (hp : p.WellFormed)
    (h : t.Represents (.ofWellFormed p)) (hphase : t.phase = .two)
    (hstop : t.enteringColumn (.ofWellFormed p) ε = none) (hy : p.isFeasible y 0 = true) :
    p.sense.signed (p.evaluate y) ≤ t.objectiveValue + ε * (y.sum
      + ((p.constraints.filter (·.relation ≠ .eq)).map fun con ↦ |con.rhs - con.lhs y|).sum) := by
  obtain ⟨hholds, hnonneg⟩ := StandardForm.extension_of_isFeasible hp hy
  have hle := h.worth_le_add hstop hholds hnonneg (StandardForm.genuine_extension p y)
  rw [hphase, StandardForm.worth_two (StandardForm.extends_extension p y),
    StandardForm.sum_extension ((p.isFeasible_iff y 0).mp hy).1] at hle
  refine hle.trans (add_le_add_right (mul_le_mul_of_nonneg_left ?_ hε) _)
  exact add_le_add_right (p.sum_room_le y) _

/-- **A reported optimum is near one.** Its objective is that of the reported values up to the
tolerance for each unit of cost, and no feasible point is better by more than the tolerance for each
unit of it and of the room it leaves in the constraints that are not equalities. -/
theorem near_optimal_of_solve (hε : 0 ≤ s.tolerance) (h : solve s p = .ok sol)
    (hstatus : sol.status = .optimal) :
    ∃ x z, sol.values = some x ∧ sol.objectiveValue = some z
      ∧ |z - p.evaluate x| ≤ s.tolerance * (p.objective.map (|·|)).sum
      ∧ ∀ y, p.isFeasible y 0 = true →
        p.sense.signed (p.evaluate y) ≤ p.sense.signed z + s.tolerance * (y.sum
          + ((p.constraints.filter (·.relation ≠ .eq)).map
            fun con ↦ |con.rhs - con.lhs y|).sum) := by
  obtain ⟨hp, r, -, hsol, hfin⟩ := exists_finished_of_solve h
  rw [hstatus] at hsol hfin
  cases hfin with
  | optimal hr hstop =>
    have hrep := hr.represents hp hε
    have hvalue : p.sense.signed r.tableau.objectiveValue
        = p.evaluate (StandardForm.point p r.tableau.basicSolution) := by
      rw [hrep.objectiveValue_eq, hr.phase_eq, Stage.phase,
        StandardForm.worth_two (StandardForm.extends_point p _), Sense.signed_signed]
    refine ⟨r.tableau.structuralValues (.ofWellFormed p) s.tolerance,
      p.sense.signed r.tableau.objectiveValue, ?_, ?_, ?_, fun y hy ↦ ?_⟩
    · rw [hsol, Run.values_toSolution]
    · rw [hsol, Run.objectiveValue_toSolution, StandardForm.ite_signFlipped]
    · rw [hvalue]
      exact Tableau.abs_evaluate_structuralValues_le hε hrep
    · rw [Sense.signed_signed]
      exact Tableau.signed_evaluate_le_add hε hp hrep hr.phase_eq hstop hy

/-- The first variable earns too little to enter, and the last one is rounded to zero. -/
def faint : Problem ℚ where
  sense := .minimize
  objective := [-1 / 2147483648, 1, -1]
  constraints :=
    [⟨none, [0, 1, 0], .ge, 1⟩, ⟨none, [1, 0, 0], .le, 4⟩, ⟨none, [0, 0, 1], .le, 1 / 2147483648⟩]
  variableNames := []

/-- The reported objective is not that of the reported values, and a feasible point is better than
either. -/
theorem near_optimal_of_solve_faint : 0 ≤ (Settings.standard (α := ℚ)).tolerance ∧ ∃ sol,
    solve .standard faint = .ok sol ∧ sol.status = .optimal ∧ sol.values = some [0, 1, 0]
      ∧ sol.objectiveValue = some (2147483647 / 2147483648) ∧ faint.evaluate [0, 1, 0] = 1
      ∧ |2147483647 / 2147483648 - faint.evaluate [0, 1, 0]|
        ≤ (Settings.standard (α := ℚ)).tolerance * (faint.objective.map (|·|)).sum
      ∧ faint.isFeasible [4, 1, 1 / 2147483648] 0 = true
      ∧ faint.evaluate [4, 1, 1 / 2147483648] < 2147483647 / 2147483648
      ∧ faint.sense.signed (faint.evaluate [4, 1, 1 / 2147483648])
        ≤ faint.sense.signed (2147483647 / 2147483648) + (Settings.standard (α := ℚ)).tolerance
          * (([4, 1, 1 / 2147483648] : List ℚ).sum
            + ((faint.constraints.filter (·.relation ≠ .eq)).map
              fun con ↦ |con.rhs - con.lhs [4, 1, 1 / 2147483648]|).sum) := by
  have hε : 0 ≤ (Settings.standard (α := ℚ)).tolerance := by decide +kernel
  obtain ⟨sol, h, hsol⟩ := exists_solve_eq_of_map (s := .standard) (p := faint)
    (f := fun sol ↦ (sol.status, sol.values, sol.objectiveValue))
    (b := (.optimal, some [0, 1, 0], some (2147483647 / 2147483648))) (by decide +kernel)
  simp only [Prod.mk.injEq] at hsol
  obtain ⟨hstatus, hvalues, hvalue⟩ := hsol
  obtain ⟨x, z, hx, hz, hgap, hbest⟩ := near_optimal_of_solve hε h hstatus
  obtain rfl := Option.some_inj.mp (hx.symm.trans hvalues)
  obtain rfl := Option.some_inj.mp (hz.symm.trans hvalue)
  have hfeasible : faint.isFeasible [4, 1, 1 / 2147483648] 0 = true := by decide +kernel
  exact ⟨hε, sol, h, hstatus, hvalues, hvalue, by decide +kernel, hgap, hfeasible,
    by decide +kernel, hbest _ hfeasible⟩

end

end LinearProgramming
