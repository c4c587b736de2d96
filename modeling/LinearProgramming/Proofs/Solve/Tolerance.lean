import LinearProgramming.Proofs.Run.Represents

/-!
# Solves with a tolerance

With a tolerance above zero the leaving row need not have the smallest ratio: a row within the
tolerance of it may leave in its place, and then the constant of the row with the smallest ratio
falls below zero by the difference times its own cell. The tolerance limits the difference and
nothing limits the cell, so a reported optimum may miss a constraint by any amount.

What a reported optimum misses can be read off its last tableau, which states the problem exactly
whatever the tolerance. The columns that belong to a constraint say what room it has at the basic
solution, and rounding small values to zero gives some of it back or takes more.
-/

open Finset

namespace LinearProgramming

/-! ## Rounding -/

namespace Scalar

theorem snap_eq_sub (ε x : ℚ) : snap ε x = x - if |x| ≤ ε then x else 0 := by
  rw [snap, abs_eq]
  split_ifs
  · exact (sub_self x).symm
  · exact (sub_zero x).symm

theorem snap_nonneg_iff {ε : ℚ} (hε : 0 ≤ ε) (x : ℚ) : 0 ≤ snap ε x ↔ -ε ≤ x := by
  rw [snap, abs_eq]
  split_ifs with hsmall
  · exact ⟨fun _ ↦ (abs_le.mp hsmall).1, fun _ ↦ le_rfl⟩
  · constructor
    · intro hx
      linarith
    · intro hx
      by_contra hneg
      exact hsmall (abs_le.mpr ⟨hx, (not_le.mp hneg).le.trans hε⟩)

end Scalar

namespace NormalRow

/-- The room a row gains where the variables give up `d`. -/
def released (row : NormalRow ℚ) (d : List ℚ) : ℚ :=
  match row.relation with
  | .ge => -Scalar.dot row.coefficients d
  | _ => Scalar.dot row.coefficients d

theorem room_eq_add_released {row : NormalRow ℚ} {n : ℕ} (hlen : row.coefficients.length = n)
    {x y d : List ℚ} (h : ∀ c < n, cellAt x c = cellAt y c - cellAt d c) :
    row.room x = row.room y + row.released d := by
  have hdot : Scalar.dot row.coefficients x
      = Scalar.dot row.coefficients y - Scalar.dot row.coefficients d := by
    rw [Scalar.dot_eq_sum hlen.le, Scalar.dot_eq_sum hlen.le, Scalar.dot_eq_sum hlen.le,
      ← sum_sub_distrib]
    refine sum_congr rfl fun c hc ↦ ?_
    rw [h c (mem_range.mp hc), mul_sub]
  rw [room, room, released, hdot]
  cases row.relation with
  | le => ring
  | ge => ring
  | eq => ring

end NormalRow

/-! ## What a last tableau says of the reported values -/

namespace Tableau

/-- What rounding takes from column `c`. -/
def dropped (ε : ℚ) (t : Tableau ℚ) (c : ℕ) : ℚ :=
  if |t.basicSolution c| ≤ ε then t.basicSolution c else 0

/-- The room that row `i` has at the reported values: what its own columns take up, and what
rounding the variables gives back. -/
def roomLeft (p : Problem ℚ) (ε : ℚ) (t : Tableau ℚ) (i : ℕ) (row : NormalRow ℚ) : ℚ :=
  row.filledBy (t.basicSolution (p.auxiliaryOf i)) (t.basicSolution (p.artificialOf i))
    + row.released (StandardForm.point p (t.dropped ε))

/-- That a last tableau misses nothing by more than `ε`: no variable is further below zero, and
every row has the room it may have. -/
structure WithinTolerance (p : Problem ℚ) (ε : ℚ) (t : Tableau ℚ) : Prop where
  neg_le : ∀ c < p.numVariables, -ε ≤ t.basicSolution c
  allows : ∀ (i : ℕ) (row : NormalRow ℚ), p.normalRows[i]? = some row →
    row.Allows ε (t.roomLeft p ε i row)

variable {p : Problem ℚ} {t : Tableau ℚ} {ε : ℚ}

theorem room_structuralValues (hp : p.WellFormed) (h : t.Represents (.ofWellFormed p)) {i : ℕ}
    {row : NormalRow ℚ} (hi : p.normalRows[i]? = some row) :
    row.room (t.structuralValues (.ofWellFormed p) ε) = t.roomLeft p ε i row := by
  have hholds : (StandardForm.ofWellFormed p).Holds t.basicSolution :=
    (h.holds_iff _).mp (holds_basicSolution h.canonical)
  have hbasic :=
    (StandardForm.holds_iff_room hp (StandardForm.extends_point p _)).mp hholds i row hi
  rw [roomLeft, ← hbasic]
  refine NormalRow.room_eq_add_released (StandardForm.length_normalRow hp hi) fun c hc ↦ ?_
  rw [cellAt_structuralValues _ _ h.canonical.rows hc, Scalar.snap_eq_sub,
    ← StandardForm.extends_point p _ c hc, ← StandardForm.extends_point p _ c hc, dropped]

theorem forall_structuralValues_nonneg_iff (hε : 0 ≤ ε) (h : t.Represents (.ofWellFormed p)) :
    (∀ v ∈ t.structuralValues (.ofWellFormed p) ε, 0 ≤ v)
      ↔ ∀ c < p.numVariables, -ε ≤ t.basicSolution c := by
  rw [forall_mem_iff_cellAt (n := p.numVariables) (length_structuralValues ..)]
  refine forall₂_congr fun c hc ↦ ?_
  rw [cellAt_structuralValues _ _ h.canonical.rows hc, Scalar.snap_nonneg_iff hε]

/-- **Within tolerance.** The reported values are non-negative and feasible up to `ε` exactly where
the tableau they are read off is. -/
theorem isFeasible_structuralValues_iff (hp : p.WellFormed) (hε : 0 ≤ ε)
    (h : t.Represents (.ofWellFormed p)) :
    (∀ v ∈ t.structuralValues (.ofWellFormed p) ε, 0 ≤ v)
        ∧ p.isFeasible (t.structuralValues (.ofWellFormed p) ε) ε = true
      ↔ t.WithinTolerance p ε := by
  rw [Problem.isFeasible_iff]
  constructor
  · rintro ⟨hnonneg, -, -, hrows⟩
    refine ⟨(forall_structuralValues_nonneg_iff hε h).mp hnonneg, fun i row hi ↦ ?_⟩
    rw [← room_structuralValues hp h hi]
    exact hrows row (List.mem_of_getElem? hi)
  · rintro ⟨hnegle, hrows⟩
    have hnonneg := (forall_structuralValues_nonneg_iff hε h).mpr hnegle
    refine ⟨hnonneg, length_structuralValues .., fun v hv ↦ ?_, fun row hrow ↦ ?_⟩
    · exact (neg_nonpos.mpr hε).trans (hnonneg v hv)
    · obtain ⟨i, hi⟩ := List.mem_iff_getElem?.mp hrow
      rw [room_structuralValues hp h hi]
      exact hrows i row hi

end Tableau

/-! ## Reported optima -/

section

variable {s : Settings ℚ} {p : Problem ℚ} {sol : Solution ℚ}

/-- **A reported optimum is right up to the tolerance** exactly where the last tableau of the run
misses nothing by more than the tolerance. -/
theorem isFeasible_iff_of_solve (hε : 0 ≤ s.tolerance) (h : solve s p = .ok sol)
    (hstatus : sol.status = .optimal) :
    ∃ r x, Run.complete s (.ofWellFormed p) = .ok (r, .optimal) ∧ sol.values = some x
      ∧ ((∀ v ∈ x, 0 ≤ v) ∧ p.isFeasible x s.tolerance = true
        ↔ r.tableau.WithinTolerance p s.tolerance) := by
  obtain ⟨hp, r, hrun, hsol, hfin⟩ := exists_finished_of_solve h
  rw [hstatus] at hrun hsol hfin
  refine ⟨r, r.tableau.structuralValues (.ofWellFormed p) s.tolerance, hrun, ?_, ?_⟩
  · rw [hsol, Run.values_toSolution]
  · cases hfin with
    | optimal hr _ => exact Tableau.isFeasible_structuralValues_iff hp hε (hr.represents hp hε)

/-- An optimum whose first variable is rounded to zero. -/
def speck : Problem ℚ where
  sense := .maximize
  objective := [1, 1]
  constraints := [⟨none, [1, 0], .le, 1 / 2147483648⟩, ⟨none, [1, 1], .le, 1⟩]
  variableNames := []

theorem isFeasible_iff_of_solve_speck : 0 ≤ (Settings.standard (α := ℚ)).tolerance ∧ ∃ sol,
    solve .standard speck = .ok sol ∧ sol.status = .optimal ∧ ∃ r,
      Run.complete .standard (.ofWellFormed speck) = .ok (r, .optimal)
        ∧ sol.values = some [0, 2147483647 / 2147483648]
        ∧ r.tableau.WithinTolerance speck (Settings.standard (α := ℚ)).tolerance := by
  have hε : 0 ≤ (Settings.standard (α := ℚ)).tolerance := by decide +kernel
  obtain ⟨sol, h, hsol⟩ := exists_solve_eq_of_map (s := .standard) (p := speck)
    (f := fun sol ↦ (sol.status, sol.values))
    (b := (.optimal, some [0, 2147483647 / 2147483648])) (by decide +kernel)
  rw [Prod.mk.injEq] at hsol
  obtain ⟨r, x, hrun, hx, hiff⟩ := isFeasible_iff_of_solve hε h hsol.1
  obtain rfl := Option.some_inj.mp (hx.symm.trans hsol.2)
  exact ⟨hε, sol, h, hsol.1, r, hrun, hsol.2, hiff.mp (by decide +kernel)⟩

/-- The second constraint is the tighter one by less than a billionth, and the first one leaves. -/
def nearTie : Problem ℚ where
  sense := .maximize
  objective := [1073741824]
  constraints := [⟨none, [2], .le, 2⟩, ⟨none, [1073741824], .le, 1073741823⟩]
  variableNames := []

/-- **A tie that is none.** At the reported optimum the second constraint is exceeded by one. -/
theorem isFeasible_eq_false_nearTie : 0 ≤ (Settings.standard (α := ℚ)).tolerance ∧ ∃ sol,
    solve .standard nearTie = .ok sol ∧ sol.status = .optimal ∧ sol.values = some [1]
      ∧ nearTie.isFeasible [1] (Settings.standard (α := ℚ)).tolerance = false := by
  obtain ⟨sol, h, hsol⟩ := exists_solve_eq_of_map (s := .standard) (p := nearTie)
    (f := fun sol ↦ (sol.status, sol.values)) (b := (.optimal, some [1])) (by decide +kernel)
  rw [Prod.mk.injEq] at hsol
  exact ⟨by decide +kernel, sol, h, hsol.1, hsol.2, by decide +kernel⟩

end

end LinearProgramming
