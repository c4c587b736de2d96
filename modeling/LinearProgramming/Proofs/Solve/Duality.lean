import LinearProgramming.Proofs.Problem.Dual
import LinearProgramming.Proofs.Run.Monotone
import LinearProgramming.Proofs.Solve.Certificate

/-!
# A problem and its dual

Solving a problem and solving its dual are two runs with nothing in common: other rows, other
columns, as a rule other phases. Their results agree all the same, since each of them is settled by
what it shows about the problem and not by how it was found.

An exact solve *settles* its problem. It has an optimal point and a certificate for it, or it has no
feasible point, or it has feasible points better than any bound. What one of these says of a problem
rules out two of them for the dual, or one: the certificate of an optimum is a point of the dual,
the points of a problem bound those of its dual, and the certificate of an optimum of the dual is a
point of the problem. Only where neither has a point is nothing ruled out in between.
-/

namespace LinearProgramming

/-! ## Settled problems -/

section

variable {p : Problem ℚ} {t : Tableau ℚ}

theorem Tableau.Represents.objectiveValue_eq_zero (hp : p.WellFormed)
    (h : t.Represents (.ofWellFormed p)) (hnonneg : t.Nonnegative (.ofWellFormed p))
    (hphase : t.phase = .one) (hstop : t.enteringColumn (.ofWellFormed p) 0 = none) {x : List ℚ}
    (hx : p.isFeasible x 0 = true) : t.objectiveValue = 0 := by
  obtain ⟨hholds, hpos⟩ := StandardForm.extension_of_isFeasible hp hx
  have hgenuine := StandardForm.genuine_extension p x
  have hge := h.worth_le hstop hholds hpos hgenuine
  rw [hphase, StandardForm.worth_one_of_genuine hgenuine] at hge
  exact le_antisymm (h.objectiveValue_nonpos hnonneg hphase) hge

/-- The ray of a column that no row limits leads through points better than any bound. -/
theorem Tableau.Represents.exists_isFeasible_gt (hp : p.WellFormed)
    (h : t.Represents (.ofWellFormed p)) (hexact : t.Exact (.ofWellFormed p) (.optimizing .two))
    (hphase : t.phase = .two) {j : ℕ} (hj : t.enteringColumn (.ofWellFormed p) 0 = some j)
    (hi : t.leavingRow 0 j = none) (bound : ℚ) :
    ∃ x, p.isFeasible x 0 = true ∧ bound < p.sense.signed (p.evaluate x) := by
  have henters := enters_of_enteringColumn hj
  obtain ⟨θ, hholds, hnonneg, hworth⟩ := h.exists_ray hexact.nonnegative hj hi bound
  have hgenuine := (hexact.idle rfl).genuine_ray h (h.numColumns_eq ▸ henters.lt_numColumns)
    (henters.isArtificial_eq_false hphase) θ
  refine ⟨StandardForm.point p (t.ray j θ), StandardForm.isFeasible_of_holds hp
    (StandardForm.length_point ..) (StandardForm.extends_point p _) hholds hnonneg hgenuine, ?_⟩
  rwa [hphase, StandardForm.worth_two (StandardForm.extends_point p _)] at hworth

/-- What a solution with a given status shows about its problem. -/
inductive Problem.Settled (p : Problem ℚ) (sol : Solution ℚ) : Status → Prop
  /-- A feasible point with the reported objective, and a certificate that none is better. -/
  | optimal {analysis : Analysis ℚ} {x : List ℚ} {z : ℚ} (hanalysis : sol.analysis = some analysis)
      (hvalue : sol.objectiveValue = some z) (hx : p.isFeasible x 0 = true)
      (heval : p.evaluate x = z)
      (hcert : p.IsDualCertificate (analysis.shadowPrices.map (·.value))
        (analysis.reducedCosts.map (·.cost)) z) : Settled p sol .optimal
  /-- No feasible point. -/
  | infeasible (hnone : ∀ x, p.isFeasible x 0 = false) : Settled p sol .infeasible
  /-- Feasible points better than any bound. -/
  | unbounded (hbeyond : ∀ bound, ∃ x, p.isFeasible x 0 = true
      ∧ bound < p.sense.signed (p.evaluate x)) : Settled p sol .unbounded

variable {s : Settings ℚ} {sol : Solution ℚ}

/-- **An exact solve settles its problem.** -/
theorem settled_of_solve (hexact : s.tolerance = 0) (h : solve s p = .ok sol) :
    p.WellFormed ∧ p.Settled sol sol.status := by
  obtain ⟨hp, r, -, hsol, hfin⟩ := exists_finished_of_solve h
  refine ⟨hp, ?_⟩
  rw [hexact] at hfin
  cases hstatus : sol.status with
  | optimal =>
    rw [hstatus] at hfin hsol
    cases hfin with
    | optimal hr hstop =>
      have hrep := hr.represents hp le_rfl
      refine .optimal (by rw [hsol, Run.analysis_toSolution, hexact])
        (by rw [hsol, Run.objectiveValue_toSolution, StandardForm.ite_signFlipped])
        (Tableau.isFeasible_structuralValues hp hrep (hr.exact hp)) ?_
        (hrep.isDualCertificate hp hr.phase_eq hstop)
      rw [hrep.objectiveValue_eq, hr.phase_eq, Stage.phase,
        StandardForm.worth_two hrep.extends_structuralValues, Sense.signed_signed]
  | infeasible =>
    rw [hstatus] at hfin
    refine .infeasible fun x ↦ Bool.eq_false_iff.mpr fun hx ↦ ?_
    cases hfin with
    | unlimited hr hj hi =>
      exact (hr.represents hp le_rfl).leavingRow_ne_none (hr.exact hp).nonnegative hr.phase_eq hj hi
    | remaining hr hstop hlarge =>
      rw [(hr.represents hp le_rfl).objectiveValue_eq_zero hp (hr.exact hp).nonnegative hr.phase_eq
        hstop hx, Scalar.abs_eq, abs_zero] at hlarge
      exact lt_irrefl 0 hlarge
  | unbounded =>
    rw [hstatus] at hfin
    cases hfin with
    | unbounded hr hj hi =>
      exact .unbounded
        ((hr.represents hp le_rfl).exists_isFeasible_gt hp (hr.exact hp) hr.phase_eq hj hi)

end

/-! ## What one solution says of the other -/

namespace Problem.Settled

variable {p : Problem ℚ} {sol sol' : Solution ℚ} {status status' : Status}

theorem exists_isFeasible (h : p.Settled sol status) (hstatus : status ≠ .infeasible) :
    ∃ x, p.isFeasible x 0 = true := by
  cases h with
  | optimal _ _ hx => exact ⟨_, hx⟩
  | infeasible => exact absurd rfl hstatus
  | unbounded hbeyond =>
    obtain ⟨x, hx, -⟩ := hbeyond 0
    exact ⟨x, hx⟩

theorem ne_unbounded (h : p.Settled sol status) {bound : ℚ}
    (hbound : ∀ x, p.isFeasible x 0 = true → p.sense.signed (p.evaluate x) ≤ bound) :
    status ≠ .unbounded := by
  rintro rfl
  cases h with
  | unbounded hbeyond =>
    obtain ⟨x, hx, hlt⟩ := hbeyond bound
    exact absurd (hbound x hx) (not_le.mpr hlt)

section

variable (hp : p.WellFormed) (hne : ∀ con ∈ p.constraints, con.relation ≠ .eq)

include hp hne

/-- **The dual of an unbounded problem is infeasible**, since a point of it would be a bound. -/
theorem dual_of_unbounded (h : p.Settled sol .unbounded)
    (h' : p.symmetricDual.Settled sol' status') : status' = .infeasible := by
  by_contra hstatus
  obtain ⟨y, hy⟩ := h'.exists_isFeasible hstatus
  exact h.ne_unbounded (fun x hx ↦ signed_evaluate_le_symmetricDual hp hne hx hy) rfl

/-- **The dual of an infeasible problem has no optimum**, since its certificate would be a point. -/
theorem dual_of_infeasible (h : p.Settled sol .infeasible)
    (h' : p.symmetricDual.Settled sol' status') :
    status' = .infeasible ∨ status' = .unbounded := by
  cases h with
  | infeasible hnone =>
    cases h' with
    | infeasible => exact .inl rfl
    | unbounded => exact .inr rfl
    | optimal _ _ _ _ hcert =>
      have hx := hcert.isFeasible_of_symmetricDual hp hne
      exact absurd (hx.symm.trans (hnone _)) (by decide)

/-- **The dual of a problem with an optimum has the same one.** The certificate of the optimum is a
point of the dual and the optimal point bounds the dual, so the dual has an optimum. Neither of the
two is better than the other: the optimal point bounds the optimum of the dual, and the certificate
of that bounds the one of the problem. -/
theorem dual_of_optimal (hp' : p.symmetricDual.WellFormed) (h : p.Settled sol .optimal)
    (h' : p.symmetricDual.Settled sol' status') : status' = .optimal
      ∧ ∃ z, sol.objectiveValue = some z ∧ sol'.objectiveValue = some z := by
  cases h with
  | @optimal _ x z _ hvalue hx heval hcert =>
    have hy := hcert.isFeasible_orient hne
    have hsense : p.symmetricDual.sense = p.sense.opposite := rfl
    have hweak : ∀ y, p.symmetricDual.isFeasible y 0 = true →
        p.sense.signed z ≤ p.sense.signed (p.symmetricDual.evaluate y) := by
      intro y hy
      rw [← heval]
      exact signed_evaluate_le_symmetricDual hp hne hx hy
    cases h' with
    | infeasible hnone => exact absurd (hy.symm.trans (hnone _)) (by decide)
    | unbounded hbeyond =>
      obtain ⟨y, hy, hlt⟩ := hbeyond (-p.sense.signed z)
      rw [hsense, Sense.signed_opposite, neg_lt_neg_iff] at hlt
      exact absurd (hweak y hy) (not_le.mpr hlt)
    | @optimal _ y z' _ hvalue' hy' heval' hcert' =>
      have hle := hweak y hy'
      rw [heval'] at hle
      have hge := hcert'.signed_evaluate_le hp' hy
      rw [hsense, Sense.signed_opposite, Sense.signed_opposite, neg_le_neg_iff,
        evaluate_symmetricDual, hcert.value] at hge
      have heq : z = z' := by
        rw [← p.sense.signed_signed z, le_antisymm hle hge, Sense.signed_signed]
      exact ⟨rfl, z, hvalue, by rw [hvalue', heq]⟩

end

end Problem.Settled

/-! ## Duality -/

/-- **Duality.** A problem without equalities has a dual. Where exact solves of both come to an end,
a problem with an optimum has a dual with an optimum and the same objective, an unbounded one has an
infeasible dual, and an infeasible one has a dual that is infeasible or unbounded. The shadow prices
at an optimum, negated on the rows that do not have the canonical relation, are a point of the dual
with the objective of the optimum. -/
theorem duality_of_solve {p : Problem ℚ} (hp : p.WellFormed)
    (hne : ∀ con ∈ p.constraints, con.relation ≠ .eq) :
    ∃ d, p.dual = .ok d
      ∧ (∀ {s s' : Settings ℚ} {sol sol' : Solution ℚ}, s.tolerance = 0 → s'.tolerance = 0 →
        solve s p = .ok sol → solve s' d = .ok sol' →
        (sol.status = .optimal → sol'.status = .optimal
            ∧ ∃ z, sol.objectiveValue = some z ∧ sol'.objectiveValue = some z)
          ∧ (sol.status = .unbounded → sol'.status = .infeasible)
          ∧ (sol.status = .infeasible → sol'.status = .infeasible ∨ sol'.status = .unbounded))
      ∧ ∀ {s : Settings ℚ} {sol : Solution ℚ}, s.tolerance = 0 → solve s p = .ok sol →
        sol.status = .optimal → ∃ analysis z, sol.analysis = some analysis
          ∧ sol.objectiveValue = some z
          ∧ d.isFeasible (p.orient (analysis.shadowPrices.map (·.value))) 0 = true
          ∧ d.evaluate (p.orient (analysis.shadowPrices.map (·.value))) = z := by
  refine ⟨p.symmetricDual, Problem.dual_eq_ok hp hne, ?_, ?_⟩
  · intro s s' sol sol' hexact hexact' h h'
    obtain ⟨-, hsettled⟩ := settled_of_solve hexact h
    obtain ⟨hp', hsettled'⟩ := settled_of_solve hexact' h'
    refine ⟨fun hstatus ↦ ?_, fun hstatus ↦ ?_, fun hstatus ↦ ?_⟩
    all_goals rw [hstatus] at hsettled
    · exact hsettled.dual_of_optimal hp hne hp' hsettled'
    · exact hsettled.dual_of_unbounded hp hne hsettled'
    · exact hsettled.dual_of_infeasible hp hne hsettled'
  · intro s sol hexact h hstatus
    obtain ⟨-, hsettled⟩ := settled_of_solve hexact h
    rw [hstatus] at hsettled
    cases hsettled with
    | optimal hanalysis hvalue _ _ hcert =>
      exact ⟨_, _, hanalysis, hvalue, hcert.isFeasible_orient hne,
        (Problem.evaluate_symmetricDual p _).trans hcert.value⟩

/-- A minimization with a row either way. The second one is worth using against its direction. -/
def detour : Problem ℚ where
  sense := .minimize
  objective := [1, 3]
  constraints := [⟨none, [1, 1], .ge, 4⟩, ⟨none, [1, 0], .le, 3⟩]
  variableNames := []

theorem duality_of_solve_detour : detour.WellFormed
    ∧ (∀ con ∈ detour.constraints, con.relation ≠ .eq) ∧ Settings.zeroTolerance.tolerance = 0
    ∧ ∃ d sol sol', detour.dual = .ok d
      ∧ solve .zeroTolerance detour = .ok sol ∧ solve .zeroTolerance d = .ok sol'
      ∧ sol.status = .optimal ∧ sol'.status = .optimal
      ∧ sol.objectiveValue = some 6 ∧ sol'.objectiveValue = some 6
      ∧ detour.orient [3, -2] = [3, 2] ∧ d.isFeasible [3, 2] 0 = true ∧ d.evaluate [3, 2] = 6 := by
  have hp : detour.WellFormed := rfl
  have hne : ∀ con ∈ detour.constraints, con.relation ≠ .eq := by decide
  have horient : detour.orient [3, -2] = [3, 2] := by decide +kernel
  obtain ⟨d, hd, hsolves, hprices⟩ := duality_of_solve hp hne
  obtain rfl := Except.ok.inj ((Problem.dual_eq_ok hp hne).symm.trans hd)
  obtain ⟨sol, h, hsol⟩ := exists_solve_eq_of_map (s := .zeroTolerance) (p := detour)
    (f := fun sol ↦ (sol.status, sol.objectiveValue,
      sol.analysis.map fun analysis ↦ analysis.shadowPrices.map (·.value)))
    (b := (.optimal, some 6, some [3, -2])) (by decide +kernel)
  obtain ⟨sol', h', -⟩ := exists_solve_eq_of_map (s := .zeroTolerance) (p := detour.symmetricDual)
    (f := fun sol ↦ sol.status) (b := .optimal) (by decide +kernel)
  simp only [Prod.mk.injEq] at hsol
  obtain ⟨hstatus, hvalue, hanalysis⟩ := hsol
  obtain ⟨hstatus', z, hz, hvalue'⟩ := (hsolves rfl rfl h h').1 hstatus
  obtain rfl := Option.some_inj.mp (hz.symm.trans hvalue)
  obtain ⟨analysis, z, ha, hz, hfeasible, hevaluate⟩ := hprices rfl h hstatus
  rw [ha, Option.map_some, Option.some_inj] at hanalysis
  obtain rfl := Option.some_inj.mp (hz.symm.trans hvalue)
  rw [hanalysis, horient] at hfeasible hevaluate
  exact ⟨hp, hne, rfl, _, sol, sol', hd, h, h', hstatus, hstatus', hvalue, hvalue', horient,
    hfeasible, hevaluate⟩

end LinearProgramming
