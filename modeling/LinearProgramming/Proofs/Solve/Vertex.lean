import LinearProgramming.Proofs.Solve.Exact

/-!
# An optimum is a vertex

A feasible point is a vertex if it is not halfway between two others. The point of a basic solution
is one. Halfway between two points every slack and surplus is halfway between theirs, so a column
that is zero at the middle and nowhere negative is zero at both ends; and with the columns outside
the basis at zero the rows leave no choice for the others.

The basis here may be degenerate, and an artificial variable may be left in it where a row is
redundant. Neither matters: what is used of the basis is that its columns are those of a unit
matrix, and the artificial variables are zero at every feasible point.
-/

namespace LinearProgramming

def midpoint (y z : List ℚ) : List ℚ := List.zipWith (fun a b ↦ (a + b) / 2) y z

/-- That `x` is feasible, and not halfway between two other feasible points. -/
structure Problem.IsVertex (p : Problem ℚ) (x : List ℚ) : Prop where
  feasible : p.isFeasible x 0 = true
  extreme : ∀ y z, p.isFeasible y 0 = true → p.isFeasible z 0 = true → x = midpoint y z → y = z

theorem cellAt_midpoint {y z : List ℚ} (h : y.length = z.length) (c : ℕ) :
    cellAt (midpoint y z) c = (cellAt y c + cellAt z c) / 2 := by
  rw [midpoint, cellAt, List.getElem?_zipWith]
  by_cases hc : c < y.length
  · rw [List.getElem?_eq_getElem hc, List.getElem?_eq_getElem (h ▸ hc), cellAt_eq_getElem hc,
      cellAt_eq_getElem (h ▸ hc)]
    rfl
  · rw [not_lt] at hc
    rw [List.getElem?_eq_none hc, cellAt_eq_zero hc, cellAt_eq_zero (h ▸ hc), add_zero, zero_div]
    rfl

/-! ## Halfway between two solutions -/

namespace StandardForm

variable {form : StandardForm ℚ} {p : Problem ℚ} {u v : ℕ → ℚ} {x y z : List ℚ}

/-- The assignment halfway between two others. -/
def halfway (u v : ℕ → ℚ) (c : ℕ) : ℚ := (u c + v c) / 2

theorem Holds.halfway (hu : form.Holds u) (hv : form.Holds v) : form.Holds (halfway u v) := by
  intro row hrow
  have hterm : ∀ c ∈ Finset.range form.numColumns,
      cellAt row.coefficients c * StandardForm.halfway u v c
        = (cellAt row.coefficients c * u c + cellAt row.coefficients c * v c) / 2 := by
    intro c _
    rw [StandardForm.halfway]
    ring
  rw [Finset.sum_congr rfl hterm, ← Finset.sum_div, Finset.sum_add_distrib, hu row hrow,
    hv row hrow, add_self_div_two]

theorem Genuine.halfway (hu : form.Genuine u) (hv : form.Genuine v) :
    form.Genuine (halfway u v) := by
  intro c hc
  rw [StandardForm.halfway, hu c hc, hv c hc, add_zero, zero_div]

theorem Extends.halfway (hlen : y.length = z.length) (hu : Extends p u y) (hv : Extends p v z) :
    Extends p (halfway u v) (midpoint y z) := by
  intro c hc
  rw [cellAt_midpoint hlen, StandardForm.halfway, hu c hc, hv c hc]

theorem extension_midpoint (hp : p.WellFormed) (hy : p.isFeasible y 0 = true)
    (hz : p.isFeasible z 0 = true) {c : ℕ} (hc : c < (ofWellFormed p).numColumns) :
    halfway (extension p y) (extension p z) c = extension p (midpoint y z) c := by
  obtain ⟨hlen, -⟩ := (p.isFeasible_zero_iff y).mp hy
  obtain ⟨hlen', -⟩ := (p.isFeasible_zero_iff z).mp hz
  exact eq_extension hp
    ((extends_extension p y).halfway (hlen.trans hlen'.symm) (extends_extension p z))
    ((genuine_extension p y).halfway (genuine_extension p z))
    ((extension_of_isFeasible hp hy).1.halfway (extension_of_isFeasible hp hz).1) hc

end StandardForm

/-! ## The point of a basic solution -/

section

variable {p : Problem ℚ} {t : Tableau ℚ} {y z : List ℚ}

private theorem extension_eq_basicSolution (hp : p.WellFormed) (h : t.Represents (.ofWellFormed p))
    (hy : p.isFeasible y 0 = true) (hz : p.isFeasible z 0 = true)
    (hmid : ∀ c < (StandardForm.ofWellFormed p).numColumns,
      t.basicSolution c
        = StandardForm.halfway (StandardForm.extension p y) (StandardForm.extension p z) c)
    {c : ℕ} (hc : c < (StandardForm.ofWellFormed p).numColumns) :
    StandardForm.extension p y c = t.basicSolution c := by
  obtain ⟨hholds, hnonneg⟩ := StandardForm.extension_of_isFeasible hp hy
  obtain ⟨-, hnonneg'⟩ := StandardForm.extension_of_isFeasible hp hz
  refine Tableau.eq_basicSolution_of_holds h.canonical ((h.holds_iff _).mpr hholds) ?_ hc
  intro d hd hbasis
  have hzero := hmid d hd
  rw [Tableau.basicSolution, Tableau.basicAssignment_of_notMem _ hbasis,
    StandardForm.halfway] at hzero
  linarith [hnonneg d, hnonneg' d]

/-- **The point of a basic solution is a vertex.** -/
theorem Tableau.isVertex_structuralValues (hp : p.WellFormed)
    (h : t.Represents (.ofWellFormed p)) (hexact : t.Exact (.ofWellFormed p) (.optimizing .two)) :
    p.IsVertex (t.structuralValues (.ofWellFormed p) 0) := by
  constructor
  · exact isFeasible_structuralValues hp h hexact
  · intro y z hy hz hmiddle
    have hgenuine := (hexact.idle rfl).genuine_basicSolution h
    have hmid : ∀ c < (StandardForm.ofWellFormed p).numColumns, t.basicSolution c
        = StandardForm.halfway (StandardForm.extension p y) (StandardForm.extension p z) c := by
      intro c hc
      rw [h.basicSolution_eq_extension hp hgenuine hc, hmiddle,
        StandardForm.extension_midpoint hp hy hz hc]
    have hmid' : ∀ c < (StandardForm.ofWellFormed p).numColumns, t.basicSolution c
        = StandardForm.halfway (StandardForm.extension p z) (StandardForm.extension p y) c := by
      intro c hc
      rw [hmid c hc, StandardForm.halfway, add_comm, StandardForm.halfway]
    obtain ⟨hlen, -⟩ := (p.isFeasible_zero_iff y).mp hy
    obtain ⟨hlen', -⟩ := (p.isFeasible_zero_iff z).mp hz
    apply eq_of_cellAt hlen hlen'
    intro c hc
    have hlt := hc.trans_le (StandardForm.numVariables_le_numColumns p)
    calc cellAt y c
        = StandardForm.extension p y c := (StandardForm.extends_extension p y c hc).symm
      _ = t.basicSolution c := extension_eq_basicSolution hp h hy hz hmid hlt
      _ = StandardForm.extension p z c := (extension_eq_basicSolution hp h hz hy hmid' hlt).symm
      _ = cellAt z c := StandardForm.extends_extension p z c hc

end

/-! ## The values of an optimum -/

section

variable {s : Settings ℚ} {p : Problem ℚ} {sol : Solution ℚ}

/-- **An optimum is reported at a vertex.** -/
theorem isVertex_of_solve (hexact : s.tolerance = 0) (h : solve s p = .ok sol)
    (hstatus : sol.status = .optimal) : ∃ x, sol.values = some x ∧ p.IsVertex x := by
  obtain ⟨hp, t, hrep, hbasis, hvalues, -⟩ := exists_tableau_of_solve hexact h hstatus
  exact ⟨_, hvalues, Tableau.isVertex_structuralValues hp hrep hbasis⟩

/-- At the optimum of `blend` four of its constraints have equal sides and one variable is zero. Two
of the constraints are copies, and one of the copies is left with its artificial variable. -/
theorem isVertex_of_solve_blend : Settings.zeroTolerance.tolerance = 0 ∧ ∃ sol,
    solve .zeroTolerance blend = .ok sol ∧ sol.status = .optimal ∧ sol.values = some [1, 0, 3]
      ∧ blend.IsVertex [1, 0, 3] := by
  obtain ⟨sol, h, hsol⟩ := exists_solve_eq_of_map (s := .zeroTolerance) (p := blend)
    (f := fun sol ↦ (sol.status, sol.values)) (b := (.optimal, some [1, 0, 3]))
    (by decide +kernel)
  simp only [Prod.mk.injEq] at hsol
  obtain ⟨x, hx, hvertex⟩ := isVertex_of_solve rfl h hsol.1
  obtain rfl := Option.some_inj.mp (hx.symm.trans hsol.2)
  exact ⟨rfl, sol, h, hsol.1, hsol.2, hvertex⟩

end

end LinearProgramming
