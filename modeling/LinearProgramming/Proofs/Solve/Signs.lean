import LinearProgramming.Proofs.Run.Signs
import LinearProgramming.Proofs.Scalar.DoubleSigns
import LinearProgramming.Proofs.Solve.Limit

/-!
# Solves do not see signs

A problem written with other signs is solved by the same run, so whether a solve fails, and all
that the last tableau says of variables and constraints, is the same. Prices are those of the
problem as it is written: what is turned is the price of a negated constraint, and all prices where
the objective is negated.

What the arithmetic has to allow for is little, see `Scalar.LawfulNeg` and `Scalar.LawfulSign`, and
double precision does.
-/

namespace LinearProgramming

open Scalar

variable {α : Type} [Scalar α]

/-! ## Matching solutions -/

/-- Two analyses that say the same but for the prices. Those of constraint `k` are related by
`price k`. -/
structure Analysis.Matches (price : ℕ → α → α → Prop) (a b : Analysis α) : Prop where
  reducedCosts_eq : b.reducedCosts = a.reducedCosts
  bindingConstraints_eq : b.bindingConstraints = a.bindingConstraints
  length_shadowPrices : b.shadowPrices.length = a.shadowPrices.length
  shadowPrice {k : ℕ} {v w : ShadowPrice α} (hv : a.shadowPrices[k]? = some v)
    (hw : b.shadowPrices[k]? = some w) : w.constraint = v.constraint ∧ price k v.value w.value

/-- Two solutions that are the same but for the objective value and the prices. -/
structure Solution.Matches (price : ℕ → α → α → Prop) (sol sol' : Solution α) : Prop where
  status_eq : sol'.status = sol.status
  values_eq : sol'.values = sol.values
  iterations_eq : sol'.iterations = sol.iterations
  trace_eq : sol'.trace = sol.trace
  analysis : Option.Rel (Analysis.Matches price) sol.analysis sol'.analysis

/-- That `q` is `p` written with other signs: it is judged alike, has the same names, and comes to a
standard form that differs in its notes at most. -/
structure Problem.SameButSigns (p q : Problem α) : Prop where
  validate_eq : q.validate = p.validate
  variableNames_eq : q.variableNames = p.variableNames
  constraintName_eq (k : ℕ) : q.constraintName k = p.constraintName k
  form_eq (hp : p.WellFormed) :
    (StandardForm.ofWellFormed q).unsigned = (StandardForm.ofWellFormed p).unsigned

/-! ## One run, two solutions -/

section ReadOff

variable {p q : Problem α} {form form' : StandardForm α}

omit [Scalar α] in
theorem StandardForm.columnLabels_congr (hform : form'.unsigned = form.unsigned)
    (hnames : q.variableNames = p.variableNames) : form'.columnLabels q = form.columnLabels p := by
  have hname : q.variableName = p.variableName := by
    funext j
    rw [Problem.variableName, Problem.variableName, hnames]
  calc form'.columnLabels q = form'.unsigned.columnLabels q := rfl
    _ = form.columnLabels q := by rw [hform]; rfl
    _ = form.columnLabels p := by rw [columnLabels, columnLabels, hname]

namespace Tableau

theorem structuralValues_congr (hform : form'.unsigned = form.unsigned) (ε : α) (t : Tableau α) :
    t.structuralValues form' ε = t.structuralValues form ε := by
  change t.structuralValues form'.unsigned ε = t.structuralValues form.unsigned ε
  rw [hform]

theorem bindingConstraints_unsigned (p : Problem α) (form : StandardForm α) (ε : α)
    (t : Tableau α) : (t.analysis p form.unsigned ε).bindingConstraints
      = (t.analysis p form ε).bindingConstraints :=
  filterMap_zipIdx_map (f := StandardRow.unsigned) (fun _ _ ↦ rfl) form.rows

/-- **Analyses of one tableau** for forms that differ in their notes match. -/
theorem matches_analysis (hform : form'.unsigned = form.unsigned)
    (hvariables : q.variableNames = p.variableNames)
    (hconstraints : ∀ k, q.constraintName k = p.constraintName k) {ε : α} {t : Tableau α}
    {price : ℕ → α → α → Prop}
    (hprice : ∀ k row row', form.rows[k]? = some row → form'.rows[k]? = some row' →
      price k (t.shadowPrice form ε row) (t.shadowPrice form' ε row')) :
    (t.analysis p form ε).Matches price (t.analysis q form' ε) where
  reducedCosts_eq := by
    simp only [analysis, structuralValues_congr hform, Problem.variableName, hvariables]
  bindingConstraints_eq := by
    have hnames : (t.analysis q form ε).bindingConstraints
        = (t.analysis p form ε).bindingConstraints := by simp only [analysis, hconstraints]
    rw [← bindingConstraints_unsigned, hform, bindingConstraints_unsigned, hnames]
  length_shadowPrices := by
    have hrows : form'.rows.map (·.unsigned) = form.rows.map (·.unsigned) :=
      congrArg StandardForm.rows hform
    simpa only [analysis, List.length_mapIdx, List.length_map] using congrArg List.length hrows
  shadowPrice {k v w} hv hw := by
    rw [analysis, List.getElem?_mapIdx, Option.map_eq_some_iff] at hv hw
    obtain ⟨row, hrow, rfl⟩ := hv
    obtain ⟨row', hrow', rfl⟩ := hw
    exact ⟨hconstraints k, hprice k row row' hrow hrow'⟩

end Tableau

/-- **Solutions read off one run** for forms that differ in their notes match. -/
theorem Run.matches_toSolution (hform : form'.unsigned = form.unsigned)
    (hvariables : q.variableNames = p.variableNames)
    (hconstraints : ∀ k, q.constraintName k = p.constraintName k) {s : Settings α} {r : Run α}
    {price : ℕ → α → α → Prop}
    (hprice : ∀ k row row', form.rows[k]? = some row → form'.rows[k]? = some row' →
      price k (r.tableau.shadowPrice form s.tolerance row)
        (r.tableau.shadowPrice form' s.tolerance row')) (status : Status) :
    (r.toSolution s p form status).Matches price (r.toSolution s q form' status) := by
  have hanalysis := Tableau.matches_analysis hform hvariables hconstraints hprice
  have hvalues := Tableau.structuralValues_congr hform s.tolerance r.tableau
  have hlabels := StandardForm.columnLabels_congr hform hvariables
  unfold toSolution
  cases status with
  | optimal =>
    split_ifs
    · exact ⟨rfl, congrArg some hvalues, rfl, by rw [hlabels], .some hanalysis⟩
    · exact ⟨rfl, congrArg some hvalues, rfl, rfl, .some hanalysis⟩
  | infeasible | unbounded =>
    split_ifs
    · exact ⟨rfl, rfl, rfl, by rw [hlabels], .none⟩
    · exact ⟨rfl, rfl, rfl, rfl, .none⟩

namespace Run

theorem objectiveValue_toSolution_of_ne {status : Status} (h : status ≠ .optimal) (s : Settings α)
    (p : Problem α) (form : StandardForm α) (r : Run α) :
    (r.toSolution s p form status).objectiveValue = none := by
  unfold toSolution
  cases status with
  | optimal => exact absurd rfl h
  | infeasible | unbounded => cases s.trace <;> rfl

theorem objectiveValue_toSolution_congr (hsense : form'.signFlipped = form.signFlipped)
    (s : Settings α) (r : Run α) (status : Status) :
    (r.toSolution s q form' status).objectiveValue
      = (r.toSolution s p form status).objectiveValue := by
  by_cases h : status = .optimal
  · rw [h, objectiveValue_toSolution, objectiveValue_toSolution, hsense]
  · rw [objectiveValue_toSolution_of_ne h, objectiveValue_toSolution_of_ne h]

theorem objectiveValue_toSolution_of_not [LawfulNeg α]
    (hsense : form'.signFlipped = !form.signFlipped) (s : Settings α) (r : Run α)
    (status : Status) : (r.toSolution s q form' status).objectiveValue
      = (r.toSolution s p form status).objectiveValue.map (-·) := by
  by_cases h : status = .optimal
  · rw [h, objectiveValue_toSolution, objectiveValue_toSolution, hsense, Option.map_some]
    cases form.signFlipped with
    | false => rfl
    | true => exact congrArg some (LawfulNeg.neg_neg r.tableau.objectiveValue).symm
  · rw [objectiveValue_toSolution_of_ne h, objectiveValue_toSolution_of_ne h, Option.map_none]

end Run

end ReadOff

/-! ## Problems that differ in signs -/

section Solves

variable {s : Settings α} {p q : Problem α}

/-- **A problem written with other signs is solved by the same run.** -/
theorem Problem.SameButSigns.solves_alike (h : p.SameButSigns q)
    {R : Solution α → Solution α → Prop} (hR : p.WellFormed → ∀ (r : Run α) status,
      R (r.toSolution s p (.ofWellFormed p) status) (r.toSolution s q (.ofWellFormed q) status)) :
    (∀ fault, solve s q = .error fault ↔ solve s p = .error fault)
    ∧ ∀ sol, solve s p = .ok sol → ∃ sol', solve s q = .ok sol' ∧ R sol sol' := by
  cases hvalid : p.validate with
  | error fault =>
    rw [solve_of_malformed hvalid, solve_of_malformed (h.validate_eq.trans hvalid)]
    exact ⟨fun _ ↦ Iff.rfl, nofun⟩
  | ok _ =>
    have hp : p.WellFormed := hvalid
    rw [solve_of_wellFormed hp, solve_of_wellFormed (h.validate_eq.trans hp),
      Run.complete_congr (h.form_eq hp)]
    cases Run.complete s (.ofWellFormed p) with
    | error r => exact ⟨fun _ ↦ Iff.rfl, nofun⟩
    | ok result =>
      obtain ⟨r, status⟩ := result
      refine ⟨fun _ ↦ iff_of_false nofun nofun, fun sol hsol ↦ ?_⟩
      cases hsol
      exact ⟨_, rfl, hR hp r status⟩

end Solves

/-! ## The objective negated -/

theorem Problem.sameButSigns_mirrored [LawfulNeg α] (p : Problem α) :
    p.SameButSigns p.mirrored where
  validate_eq := p.validate_mirrored
  variableNames_eq := rfl
  constraintName_eq _ := rfl
  form_eq _ := StandardForm.unsigned_mirrored p

/-- **Maximizing and minimizing mirror each other.** To ask for the opposite of the negated
objective fails where and as the problem itself fails. Otherwise the solution is the same but for
the objective value, which is negated, and the shadow prices, which are negated where they are not
within the tolerance of zero and zero in both solutions where they are. -/
theorem solve_mirrored [LawfulNeg α] (s : Settings α) (p : Problem α) :
    (∀ fault, solve s p.mirrored = .error fault ↔ solve s p = .error fault)
    ∧ ∀ sol, solve s p = .ok sol → ∃ sol', solve s p.mirrored = .ok sol'
      ∧ sol.Matches (fun _ ↦ Opposed s.tolerance) sol'
      ∧ sol'.objectiveValue = sol.objectiveValue.map (-·) := by
  refine p.sameButSigns_mirrored.solves_alike fun _ r status ↦ ⟨?_, ?_⟩
  · refine Run.matches_toSolution (StandardForm.unsigned_mirrored p) rfl (fun _ ↦ rfl)
      (fun k row row' hrow hrow' ↦ ?_) status
    rw [StandardForm.rows_mirrored, hrow, Option.some_inj] at hrow'
    subst hrow'
    have hturns := StandardForm.turnsPrice_mirrored p row
    exact Tableau.opposed_shadowPrice rfl hturns s.tolerance r.tableau
  · exact Run.objectiveValue_toSolution_of_not (StandardForm.signFlipped_mirrored p) s r status

/-- Costs to keep low: a demand written as an upper bound, one written as a lower bound, and a
bound that has room. -/
def purchase : Problem Float where
  sense := .minimize
  objective := [2, 3]
  constraints := [⟨none, [-1, -1], .le, -4⟩, ⟨none, [1, 2], .ge, 6⟩, ⟨none, [1, 0], .le, 10⟩]
  variableNames := []

private theorem exists_solve_purchase : ∃ sol, solve .standard purchase = .ok sol
    ∧ sol.objectiveValue = some 10
    ∧ sol.analysis.map (·.shadowPrices.map (·.value)) = some [-1, 1, 0] ∧ sol.iterations = 2 := by
  obtain ⟨sol, h, hread⟩ := exists_solve_eq_of_map (s := .standard) (p := purchase)
    (f := fun sol ↦ (sol.objectiveValue, sol.analysis.map (·.shadowPrices.map (·.value)),
      sol.iterations)) (b := (some 10, some [-1, 1, 0], 2)) (by decide +kernel)
  obtain ⟨hobjective, hread⟩ := Prod.mk.inj hread
  exact ⟨sol, h, hobjective, Prod.mk.inj hread⟩

/-- The prices of the first two constraints are turned, and that of the third is zero both times.
With a limit of one pivot both solves fail. -/
theorem solve_mirrored_purchase : (∃ sol sol', solve .standard purchase = .ok sol
      ∧ solve .standard purchase.mirrored = .ok sol'
      ∧ sol.Matches (fun _ ↦ Opposed Settings.standard.tolerance) sol'
      ∧ sol.objectiveValue = some 10 ∧ sol'.objectiveValue = some (-10)
      ∧ sol.analysis.map (·.shadowPrices.map (·.value)) = some [-1, 1, 0])
    ∧ solve { Settings.standard with maxIterations := 1 } purchase.mirrored
      = .error (.iterationLimit 1) := by
  obtain ⟨sol, h, hobjective, hprices, htwo⟩ := exists_solve_purchase
  obtain ⟨sol', h', hmatches, hopposite⟩ := (solve_mirrored .standard purchase).2 sol h
  refine ⟨⟨sol, sol', h, h', hmatches, hobjective, ?_, hprices⟩, ?_⟩
  · rw [hopposite, hobjective]
    rfl
  · have hp : purchase.WellFormed := (exists_finished_of_solve h).1
    refine ((solve_mirrored _ purchase).1 _).mpr ?_
    refine solve_limit_eq_error (s := .standard) hp (fun other hother ↦ ?_) (by decide)
    obtain rfl : sol = other := Except.ok.inj (h.symm.trans hother)
    omega

/-! ## One constraint negated -/

theorem Problem.sameButSigns_negateConstraint [LawfulSign α] {p : Problem α} {i : ℕ}
    {con : Constraint α} (hcon : p.constraints[i]? = some con) (hne : ¬con.rhs == 0) :
    p.SameButSigns (p.negateConstraint i) where
  validate_eq := p.validate_negateConstraint i
  variableNames_eq := rfl
  constraintName_eq := p.constraintName_negateConstraint i
  form_eq hp := StandardForm.unsigned_negateConstraint hcon
    (hp.isFinite_rhs con (List.mem_of_getElem? hcon)) hne

/-- **A constraint can be written with both sides negated.** Over exact numbers the points are the
same up to every tolerance. The dual is the same, or there is none for the same reason. If the
right-hand side is not zero, the solve fails where and as it did, or the solution is the same but
for the shadow price of the constraint, which is negated, or zero as it was where it is within the
tolerance of zero. -/
theorem same_of_negateConstraint [LawfulSign α] (s : Settings α) (p : Problem α) (i : ℕ) :
    (∀ (q : Problem ℚ) (x : List ℚ) (t : ℚ),
      (q.negateConstraint i).isFeasible x t = q.isFeasible x t)
    ∧ (p.negateConstraint i).dual = p.dual
    ∧ ∀ con, p.constraints[i]? = some con → ¬con.rhs == 0 →
      (∀ fault, solve s (p.negateConstraint i) = .error fault ↔ solve s p = .error fault)
      ∧ ∀ sol, solve s p = .ok sol → ∃ sol', solve s (p.negateConstraint i) = .ok sol'
        ∧ sol.Matches (fun k v w ↦ if k = i then Opposed s.tolerance v w else w = v) sol'
        ∧ sol'.objectiveValue = sol.objectiveValue := by
  refine ⟨fun q ↦ q.isFeasible_negateConstraint i, p.dual_negateConstraint i,
    fun con hcon hne ↦ ?_⟩
  have hsigns := Problem.sameButSigns_negateConstraint hcon hne
  refine hsigns.solves_alike fun hp r status ↦ ⟨?_, ?_⟩
  · have hfinite := hp.isFinite_rhs con (List.mem_of_getElem? hcon)
    refine Run.matches_toSolution (hsigns.form_eq hp) hsigns.variableNames_eq
      hsigns.constraintName_eq (fun k row row' hrow hrow' ↦ ?_) status
    have hsame := StandardForm.unsigned_of_getElem?_rows (hsigns.form_eq hp) hrow hrow'
    have hturns := StandardForm.turnsPrice_negateConstraint hcon hfinite hne hrow hrow'
    split_ifs with hki
    · rw [decide_eq_true hki, Bool.xor_true] at hturns
      exact Tableau.opposed_shadowPrice hsame hturns s.tolerance r.tableau
    · rw [decide_eq_false hki, Bool.xor_false] at hturns
      exact Tableau.shadowPrice_congr hsame hturns s.tolerance r.tableau
  · exact Run.objectiveValue_toSolution_congr (StandardForm.signFlipped_negateConstraint p i) s r
      status

/-- The first constraint is turned before it is rewritten and not turned after. The point breaks the
constraint that is rewritten by one, which a tolerance of one allows. -/
theorem same_of_negateConstraint_purchase :
    purchase.constraints[0]? = some ⟨none, [-1, -1], .le, -4⟩ ∧ ¬(-4 : Float) == 0
    ∧ (pinned.negateConstraint 3).isFeasible [0, 0, 4] 0 = false
    ∧ (pinned.negateConstraint 3).isFeasible [0, 0, 4] 1 = true
    ∧ (∃ d, purchase.dual = .ok d ∧ (purchase.negateConstraint 0).dual = .ok d)
    ∧ ∃ sol sol', solve .standard purchase = .ok sol
      ∧ solve .standard (purchase.negateConstraint 0) = .ok sol'
      ∧ sol.Matches (fun k v w ↦ if k = 0 then Opposed Settings.standard.tolerance v w else w = v)
        sol'
      ∧ sol.analysis.map (·.shadowPrices.map (·.value)) = some [-1, 1, 0]
      ∧ sol'.objectiveValue = some 10 := by
  obtain ⟨sol, h, hobjective, hprices, -⟩ := exists_solve_purchase
  have hcon : purchase.constraints[0]? = some ⟨none, [-1, -1], .le, -4⟩ := rfl
  have hne : ¬(-4 : Float) == 0 := by decide +kernel
  have hsame := same_of_negateConstraint .standard purchase 0
  obtain ⟨sol', h', hmatches, hvalue⟩ := (hsame.2.2 _ hcon hne).2 sol h
  have hpoints := (same_of_negateConstraint .standard purchase 3).1 pinned [0, 0, 4]
  refine ⟨hcon, hne, ?_, ?_, ?_, sol, sol', h, h', hmatches, hprices, hvalue.trans hobjective⟩
  · rw [hpoints 0]
    decide +kernel
  · rw [hpoints 1]
    decide +kernel
  · rw [hsame.2.1]
    exact ⟨_, rfl, rfl⟩

end LinearProgramming
