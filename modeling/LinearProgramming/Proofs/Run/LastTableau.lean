import LinearProgramming.Proofs.Run.Exact

/-!
# What the last tableau shows

A tableau at which an exact solve ends is a certificate for what the solve reports. Where no column
enters, the objective row bounds the worth of every solution from above by the objective's constant;
with a tolerance it does so up to the tolerance for each unit in the solution. Where a column enters
that no row limits, its ray consists of solutions of unbounded worth.

Both hold in either phase. In phase one no ray can be unlimited, since the negated sum of the
artificial variables never exceeds zero, and the bound says how far that sum can be brought down.

Neither says anything of the artificial variables themselves. That those are zero in phase two, at
the basic solution and along a ray, is what idle rows are for.
-/

open Finset

namespace LinearProgramming

namespace Tableau

variable {form : StandardForm ℚ} {ε : ℚ} {t : Tableau ℚ} {j : ℕ}

/-! ## The bound at an optimum -/

/-- Where no column enters, no genuine one would raise the objective by more than `ε` per unit. -/
theorem Represents.neg_le_cellAt_objective (h : t.Represents form)
    (hstop : t.enteringColumn form ε = none) {c : ℕ} (hc : c < form.numColumns)
    (hgenuine : form.isArtificial c = false) : -ε ≤ cellAt t.objective c := by
  have hmay : t.mayEnter form c = true := by simp [mayEnter, hgenuine]
  exact neg_le_of_enteringColumn_eq_none hstop (h.numColumns_eq.symm ▸ hc) hmay

theorem Represents.cellAt_objective_nonneg (h : t.Represents form)
    (hstop : t.enteringColumn form 0 = none) {c : ℕ} (hc : c < form.numColumns)
    (hgenuine : form.isArtificial c = false) : 0 ≤ cellAt t.objective c := by
  have hcell := h.neg_le_cellAt_objective hstop hc hgenuine
  rwa [neg_zero] at hcell

/-- **Weak duality up to a tolerance.** Where no column enters, a solution without artificial
variables is worth more than the basic solution by at most `ε` for each unit in it. -/
theorem Represents.worth_le_add (h : t.Represents form) (hstop : t.enteringColumn form ε = none)
    {u : ℕ → ℚ} (hu : form.Holds u) (hnonneg : ∀ c, 0 ≤ u c) (hgenuine : form.Genuine u) :
    form.worth t.phase u ≤ t.objectiveValue + ε * ∑ c ∈ range form.numColumns, u c := by
  have hcost : -ε * ∑ c ∈ range form.numColumns, u c
      ≤ ∑ c ∈ range form.numColumns, cellAt t.objective c * u c := by
    rw [mul_sum]
    refine sum_le_sum fun c hc ↦ ?_
    cases hart : form.isArtificial c with
    | true => rw [hgenuine c hart, mul_zero, mul_zero]
    | false =>
      have hcell := h.neg_le_cellAt_objective hstop (mem_range.mp hc) hart
      exact mul_le_mul_of_nonneg_right hcell (hnonneg c)
  rw [← h.worth u ((h.holds_iff u).mpr hu), residual, objectiveValue, constantOf, h.numColumns_eq]
  linarith

/-- **Weak duality.** With tolerance zero it is not worth more at all. -/
theorem Represents.worth_le (h : t.Represents form) (hstop : t.enteringColumn form 0 = none)
    {u : ℕ → ℚ} (hu : form.Holds u) (hnonneg : ∀ c, 0 ≤ u c) (hgenuine : form.Genuine u) :
    form.worth t.phase u ≤ t.objectiveValue := by
  have hle := h.worth_le_add hstop hu hnonneg hgenuine
  rwa [zero_mul, add_zero] at hle

/-! ## The ray of a column that no row limits -/

/-- **Unlimited growth.** Along the ray of an entering column that no row limits, the solutions stay
non-negative and their worth passes every bound. -/
theorem Represents.exists_ray (h : t.Represents form) (hnonneg : t.Nonnegative form)
    (hj : t.enteringColumn form 0 = some j) (hi : t.leavingRow 0 j = none) (bound : ℚ) :
    ∃ θ, form.Holds (t.ray j θ) ∧ (∀ c, 0 ≤ t.ray j θ c)
      ∧ bound < form.worth t.phase (t.ray j θ) := by
  have henters := enters_of_enteringColumn hj
  have hgain : 0 < -cellAt t.objective j := henters.earns
  have hbasis : j ∉ t.basis := by
    intro hmem
    obtain ⟨i, a, ha, rfl⟩ := mem_basis_iff.mp hmem
    rw [h.canonical.objective_basic ha, neg_zero] at hgain
    exact lt_irrefl 0 hgain
  have hlt : j < form.numColumns := h.numColumns_eq ▸ henters.lt_numColumns
  -- Far enough along the ray the gain covers what separates the present value from the bound.
  have hfar : 0 ≤ max 0 ((bound - t.objectiveValue) / -cellAt t.objective j) + 1 := by positivity
  refine ⟨_, (h.holds_iff _).mp (holds_ray h.canonical hlt hbasis _),
    ray_nonneg (hnonneg.constantOf_nonneg h) (le_of_leavingRow_eq_none hi) hfar, ?_⟩
  rw [← h.worth _ (holds_ray h.canonical hlt hbasis _),
    residual_objective_ray h.canonical hlt hbasis]
  have hcover : bound - t.objectiveValue
      ≤ max 0 ((bound - t.objectiveValue) / -cellAt t.objective j) * -cellAt t.objective j := by
    rw [← div_le_iff₀ hgain]
    exact le_max_right ..
  linarith

theorem Represents.leavingRow_ne_none (h : t.Represents form) (hnonneg : t.Nonnegative form)
    (hphase : t.phase = .one) (hj : t.enteringColumn form 0 = some j) :
    t.leavingRow 0 j ≠ none := by
  intro hi
  obtain ⟨θ, -, hray, hworth⟩ := h.exists_ray hnonneg hj hi 0
  rw [hphase] at hworth
  exact absurd hworth (not_lt.mpr (StandardForm.worth_one_nonpos hray))

/-! ## Artificial variables in phase two -/

theorem genuine_basicAssignment (h : t.Represents form) {f : TableauRow ℚ → ℚ}
    (hf : ∀ {i : ℕ} {a : TableauRow ℚ}, t.rows[i]? = some a → form.isArtificial a.basic = true →
      f a = 0) : form.Genuine (t.basicAssignment f) := by
  intro c hc
  by_cases hbasis : c ∈ t.basis
  · obtain ⟨i, a, ha, rfl⟩ := mem_basis_iff.mp hbasis
    rw [basicAssignment_basic h.canonical.rows f ha, hf ha hc]
  · exact basicAssignment_of_notMem f hbasis

theorem Idle.genuine_basicSolution {pending : List ℕ} (h : t.Represents form)
    (hidle : t.Idle form pending) : form.Genuine t.basicSolution := by
  refine genuine_basicAssignment h fun ha hart ↦ ?_
  rw [constantOf, h.numColumns_eq]
  exact (hidle ha hart).1

/-- An idle row does not notice a genuine column. -/
theorem Idle.genuine_ray (h : t.Represents form) (hidle : t.Idle form [])
    (hj : j < form.numColumns) (hgenuine : form.isArtificial j = false) (θ : ℚ) :
    form.Genuine (t.ray j θ) := by
  intro c hc
  have hcj : c ≠ j := by
    rintro rfl
    rw [hgenuine] at hc
    exact absurd hc Bool.false_ne_true
  rw [ray_of_ne hcj]
  refine genuine_basicAssignment h (fun ha hart ↦ ?_) c hc
  obtain ⟨hzero, hcells⟩ := hidle ha hart
  rw [constantOf, h.numColumns_eq, hzero, hcells List.not_mem_nil j hj hgenuine, mul_zero,
    sub_zero]

end Tableau

end LinearProgramming
