import LinearProgramming.Proofs.Problem.Feasible
import LinearProgramming.Proofs.Run.LastTableau
import LinearProgramming.Proofs.StandardForm.Feasible

/-!
# Exact solves are right

With exact arithmetic and tolerance zero, each of the three statuses a solve can report is a
theorem about the problem: an optimum is feasible and nothing feasible is better, an infeasible
problem has no feasible point, and an unbounded one has feasible points better than any bound.

The statements are about problems as they are written down. What happens in between, the turned
constraints, the added columns, the two objectives, and the rows that turn out to be redundant, has
been taken care of: a feasible point extends to a solution of the standard form, where the last
tableau can be asked about it, and what the last tableau offers restricts to a point.

None of this depends on the pivot limit. A solve that meets it reports no status.
-/

namespace LinearProgramming

theorem StandardForm.ite_signFlipped (p : Problem ℚ) (z : ℚ) :
    (if (ofWellFormed p).signFlipped then -z else z) = p.sense.signed z := by
  rw [signFlipped, show (ofWellFormed p).sense = p.sense from rfl]
  cases p.sense <;> rfl

/-! ## Between points and the last tableau -/

section

variable {p : Problem ℚ} {t : Tableau ℚ} {x : List ℚ}

theorem Tableau.Represents.extends_structuralValues (h : t.Represents (.ofWellFormed p)) :
    StandardForm.Extends p t.basicSolution (t.structuralValues (.ofWellFormed p) 0) := by
  intro c hc
  rw [cellAt_structuralValues _ _ h.canonical.rows hc, Scalar.snap, Scalar.abs_eq]
  split_ifs with hzero
  · exact abs_nonpos_iff.mp hzero
  · rfl

/-- Where no artificial variable is used, the basic solution is the reported point together with
the room of its rows. -/
theorem Tableau.Represents.basicSolution_eq_extension (hp : p.WellFormed)
    (h : t.Represents (.ofWellFormed p))
    (hgenuine : (StandardForm.ofWellFormed p).Genuine t.basicSolution) {c : ℕ}
    (hc : c < (StandardForm.ofWellFormed p).numColumns) : t.basicSolution c
      = StandardForm.extension p (t.structuralValues (.ofWellFormed p) 0) c :=
  StandardForm.eq_extension hp h.extends_structuralValues hgenuine
    ((h.holds_iff _).mp (holds_basicSolution h.canonical)) hc

theorem Tableau.isFeasible_structuralValues (hp : p.WellFormed)
    (h : t.Represents (.ofWellFormed p)) (hexact : t.Exact (.ofWellFormed p) (.optimizing .two)) :
    p.isFeasible (t.structuralValues (.ofWellFormed p) 0) 0 = true :=
  StandardForm.isFeasible_of_holds hp (length_structuralValues ..) h.extends_structuralValues
    ((h.holds_iff _).mp (holds_basicSolution h.canonical))
    (hexact.nonnegative.basicSolution_nonneg h)
    ((hexact.idle rfl).genuine_basicSolution h)

theorem Tableau.signed_evaluate_le (hp : p.WellFormed) (h : t.Represents (.ofWellFormed p))
    (hphase : t.phase = .two) (hstop : t.enteringColumn (.ofWellFormed p) 0 = none)
    (hx : p.isFeasible x 0 = true) : p.sense.signed (p.evaluate x) ≤ t.objectiveValue := by
  obtain ⟨hholds, hnonneg⟩ := StandardForm.extension_of_isFeasible hp hx
  have hle := h.worth_le hstop hholds hnonneg (StandardForm.genuine_extension p x)
  rwa [hphase, StandardForm.worth_two (StandardForm.extends_extension p x)] at hle

end

/-! ## The three statuses -/

section

variable {s : Settings ℚ} {p : Problem ℚ} {sol : Solution ℚ}

/-- Exact arithmetic, tolerance zero, and at most fifty pivots. -/
def Settings.zeroTolerance : Settings ℚ where
  maxIterations := 50
  tolerance := 0
  trace := false

theorem exists_tableau_of_solve (hexact : s.tolerance = 0) (h : solve s p = .ok sol)
    (hstatus : sol.status = .optimal) :
    p.WellFormed ∧ ∃ t : Tableau ℚ, t.Represents (.ofWellFormed p)
      ∧ t.Exact (.ofWellFormed p) (.optimizing .two)
      ∧ sol.values = some (t.structuralValues (.ofWellFormed p) 0)
      ∧ sol.analysis = some (t.analysis p (.ofWellFormed p) 0) := by
  obtain ⟨hp, r, -, hsol, hfin⟩ := exists_finished_of_solve h
  rw [hstatus, hexact] at hfin
  rw [hstatus] at hsol
  cases hfin with
  | optimal hr hstop =>
    refine ⟨hp, r.tableau, hr.represents hp le_rfl, hr.exact hp, ?_, ?_⟩
    · rw [hsol, Run.values_toSolution, hexact]
    · rw [hsol, Run.analysis_toSolution, hexact]

/-- **An optimum is optimal.** The reported values are feasible, every constraint holds at them
exactly, the reported objective is theirs, and no feasible point has a better one. -/
theorem isOptimal_of_solve (hexact : s.tolerance = 0) (h : solve s p = .ok sol)
    (hstatus : sol.status = .optimal) :
    ∃ x z, sol.values = some x ∧ sol.objectiveValue = some z
      ∧ x.length = p.numVariables ∧ p.isFeasible x 0 = true
      ∧ (∀ v ∈ x, 0 ≤ v) ∧ (∀ con ∈ p.constraints, con.Holds x)
      ∧ p.evaluate x = z ∧ ∀ y, p.isFeasible y 0 = true → ¬p.sense.Better (p.evaluate y) z := by
  obtain ⟨hp, r, -, hsol, hfin⟩ := exists_finished_of_solve h
  rw [hstatus, hexact] at hfin
  rw [hstatus] at hsol
  cases hfin with
  | optimal hr hstop =>
    have hrep := hr.represents hp le_rfl
    have hfeasible := Tableau.isFeasible_structuralValues hp hrep (hr.exact hp)
    have hvalue : p.sense.signed r.tableau.objectiveValue
        = p.evaluate (r.tableau.structuralValues (.ofWellFormed p) 0) := by
      rw [hrep.objectiveValue_eq, hr.phase_eq, Stage.phase,
        StandardForm.worth_two hrep.extends_structuralValues, Sense.signed_signed]
    obtain ⟨hlen, hnonneg, hholds⟩ := (p.isFeasible_zero_iff _).mp hfeasible
    refine ⟨_, p.sense.signed r.tableau.objectiveValue, ?_, ?_, hlen, hfeasible, hnonneg, hholds,
      hvalue.symm, fun y hy hbetter ↦ ?_⟩
    · rw [hsol, Run.values_toSolution, hexact]
    · rw [hsol, Run.objectiveValue_toSolution, StandardForm.ite_signFlipped]
    · rw [Sense.better_iff, Sense.signed_signed] at hbetter
      exact absurd hbetter (not_lt.mpr (Tableau.signed_evaluate_le hp hrep hr.phase_eq hstop hy))

/-- A minimization with every relation, an equality stated twice over, and right-hand sides below
zero both ways. -/
def blend : Problem ℚ where
  sense := .minimize
  objective := [2, 3, -1]
  constraints :=
    [⟨none, [1, 1, 1], .eq, 4⟩, ⟨none, [2, 2, 2], .eq, 8⟩, ⟨none, [-1, -1, 0], .le, -1⟩,
      ⟨none, [1, 0, -1], .ge, -2⟩, ⟨none, [0, 1, 0], .le, 3⟩]
  variableNames := []

theorem isOptimal_of_solve_blend : Settings.zeroTolerance.tolerance = 0 ∧ ∃ sol,
    solve .zeroTolerance blend = .ok sol ∧ sol.status = .optimal ∧ sol.values = some [1, 0, 3]
      ∧ sol.objectiveValue = some (-1) ∧ blend.isFeasible [1, 0, 3] 0 = true
      ∧ blend.evaluate [1, 0, 3] = -1
      ∧ ∀ y, blend.isFeasible y 0 = true → ¬blend.sense.Better (blend.evaluate y) (-1) := by
  obtain ⟨sol, h, hsol⟩ := exists_solve_eq_of_map (s := .zeroTolerance) (p := blend)
    (f := fun sol ↦ (sol.status, sol.values, sol.objectiveValue))
    (b := (.optimal, some [1, 0, 3], some (-1))) (by decide +kernel)
  simp only [Prod.mk.injEq] at hsol
  obtain ⟨hstatus, hvalues, hvalue⟩ := hsol
  obtain ⟨x, z, hx, hz, -, hfeasible, -, -, heval, hbest⟩ := isOptimal_of_solve rfl h hstatus
  obtain rfl := Option.some_inj.mp (hx.symm.trans hvalues)
  obtain rfl := Option.some_inj.mp (hz.symm.trans hvalue)
  exact ⟨rfl, sol, h, hstatus, hvalues, hvalue, hfeasible, heval, hbest⟩

/-- **An infeasible problem has no feasible point.** Phase one ends where the artificial variables
cannot sum to less, and a feasible point would have them sum to zero. -/
theorem isFeasible_eq_false_of_solve (hexact : s.tolerance = 0) (h : solve s p = .ok sol)
    (hstatus : sol.status = .infeasible) (x : List ℚ) : p.isFeasible x 0 = false := by
  obtain ⟨hp, r, -, -, hfin⟩ := exists_finished_of_solve h
  rw [hstatus, hexact] at hfin
  rw [← Bool.not_eq_true]
  intro hx
  -- Of the two ways to this status the first does not occur, feasible point or not.
  cases hfin with
  | unlimited hr hj hi =>
    exact (hr.represents hp le_rfl).leavingRow_ne_none (hr.exact hp).nonnegative hr.phase_eq hj hi
  | remaining hr hstop hlarge =>
    have hrep := hr.represents hp le_rfl
    obtain ⟨hholds, hnonneg⟩ := StandardForm.extension_of_isFeasible hp hx
    have hge := hrep.worth_le hstop hholds hnonneg (StandardForm.genuine_extension p x)
    rw [hr.phase_eq, Stage.phase,
      StandardForm.worth_one_of_genuine (StandardForm.genuine_extension p x)] at hge
    have hle : r.tableau.objectiveValue ≤ 0 := by
      rw [hrep.objectiveValue_eq, hr.phase_eq]
      exact StandardForm.worth_one_nonpos ((hr.exact hp).nonnegative.basicSolution_nonneg hrep)
    rw [Scalar.abs_eq, le_antisymm hle hge, abs_zero] at hlarge
    exact lt_irrefl 0 hlarge

/-- The variables have to exceed what the equality leaves them. -/
def overcommitted : Problem ℚ where
  sense := .maximize
  objective := [1, 1]
  constraints := [⟨none, [-1, -1], .le, -4⟩, ⟨none, [1, 2], .eq, 3⟩, ⟨none, [1, 0], .le, 1⟩]
  variableNames := []

theorem isFeasible_eq_false_of_solve_overcommitted : Settings.zeroTolerance.tolerance = 0 ∧ ∃ sol,
    solve .zeroTolerance overcommitted = .ok sol ∧ sol.status = .infeasible
      ∧ ∀ x, overcommitted.isFeasible x 0 = false := by
  obtain ⟨sol, h, hstatus⟩ := exists_solve_eq_of_map (s := .zeroTolerance) (p := overcommitted)
    (f := fun sol ↦ sol.status) (b := .infeasible) (by decide +kernel)
  exact ⟨rfl, sol, h, hstatus, isFeasible_eq_false_of_solve rfl h hstatus⟩

/-- **An unbounded problem is unbounded.** It has feasible points, and for every bound one with an
objective beyond it. -/
theorem exists_better_of_solve (hexact : s.tolerance = 0) (h : solve s p = .ok sol)
    (hstatus : sol.status = .unbounded) : (∃ x, p.isFeasible x 0 = true)
      ∧ ∀ bound, ∃ x, p.isFeasible x 0 = true ∧ p.sense.Better (p.evaluate x) bound := by
  obtain ⟨hp, r, -, -, hfin⟩ := exists_finished_of_solve h
  rw [hstatus, hexact] at hfin
  have hbeyond : ∀ bound, ∃ x, p.isFeasible x 0 = true ∧ p.sense.Better (p.evaluate x) bound := by
    intro bound
    cases hfin with
    | @unbounded _ j hr hj hi =>
      have hrep := hr.represents hp le_rfl
      have henters := Tableau.enters_of_enteringColumn hj
      obtain ⟨θ, hholds, hnonneg, hworth⟩ :=
        hrep.exists_ray (hr.exact hp).nonnegative hj hi (p.sense.signed bound)
      have hgenuine := ((hr.exact hp).idle rfl).genuine_ray hrep
        (hrep.numColumns_eq ▸ henters.lt_numColumns) (henters.isArtificial_eq_false hr.phase_eq) θ
      refine ⟨StandardForm.point p (r.tableau.ray j θ),
        StandardForm.isFeasible_of_holds hp (StandardForm.length_point ..)
          (StandardForm.extends_point p _) hholds hnonneg hgenuine, ?_⟩
      rw [hr.phase_eq, Stage.phase,
        StandardForm.worth_two (StandardForm.extends_point p _)] at hworth
      rwa [Sense.better_iff]
  obtain ⟨x, hx, -⟩ := hbeyond 0
  exact ⟨⟨x, hx⟩, hbeyond⟩

/-- Both variables can grow together. An artificial variable of the equality stated twice stays
basic to the end. -/
def escalating : Problem ℚ where
  sense := .maximize
  objective := [1, 0]
  constraints :=
    [⟨none, [1, -1], .eq, 1⟩, ⟨none, [2, -2], .eq, 2⟩, ⟨none, [1, 0], .ge, 2⟩,
      ⟨none, [-1, 0], .le, -1⟩]
  variableNames := []

theorem exists_better_of_solve_escalating : Settings.zeroTolerance.tolerance = 0 ∧ ∃ sol,
    solve .zeroTolerance escalating = .ok sol ∧ sol.status = .unbounded
      ∧ (∃ x, escalating.isFeasible x 0 = true)
      ∧ ∀ bound, ∃ x, escalating.isFeasible x 0 = true ∧ bound < escalating.evaluate x := by
  obtain ⟨sol, h, hstatus⟩ := exists_solve_eq_of_map (s := .zeroTolerance) (p := escalating)
    (f := fun sol ↦ sol.status) (b := .unbounded) (by decide +kernel)
  exact ⟨rfl, sol, h, hstatus, exists_better_of_solve rfl h hstatus⟩

end

end LinearProgramming
