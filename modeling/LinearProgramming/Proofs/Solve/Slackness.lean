import LinearProgramming.Proofs.Solve.Certificate

/-!
# Complementary slackness

Which constraints bind is read off the basis: a constraint leaves no room where its slack or surplus
is not basic or is basic at zero. At an exact optimum no artificial variable is used, so the slack
or surplus *is* the room of its constraint at the reported values, and an equality has no room. The
constraints that are said to bind are therefore those whose two sides are equal there.

Prices go with this. The objective row is zero in every basic column. A slack or surplus with a
price is outside the basis and hence zero, and so is a variable with a reduced cost.
-/

namespace LinearProgramming

namespace Problem

variable {p : Problem ℚ} {x : List ℚ} {i : ℕ}

/-- Whether the two sides of constraint `i` are equal at `x`. -/
def isTight (p : Problem ℚ) (x : List ℚ) (i : ℕ) : Bool :=
  p.constraints[i]?.any fun con ↦ con.lhs x = con.rhs

/-- The positions, in order, of the constraints whose two sides are equal at `x`. -/
def tight (p : Problem ℚ) (x : List ℚ) : List ℕ :=
  (List.range p.numConstraints).filter (p.isTight x)

theorem isTight_eq_true_iff {con : Constraint ℚ} (hi : p.constraints[i]? = some con) :
    p.isTight x i = true ↔ con.lhs x = con.rhs := by
  rw [isTight, hi, Option.any_some, decide_eq_true_iff]

theorem mem_tight_iff : i ∈ p.tight x ↔ p.isTight x i = true := by
  rw [tight, List.mem_filter, List.mem_range]
  apply and_iff_right_of_imp
  intro htight
  rw [isTight, Option.any_eq_true] at htight
  obtain ⟨con, hi, -⟩ := htight
  exact (List.getElem?_eq_some_iff.mp hi).1

end Problem

namespace Tableau

variable {p : Problem ℚ} {t : Tableau ℚ} {i : ℕ} {row : StandardRow ℚ}

/-! ## Columns at zero -/

/-- A constraint binds if its slack or surplus, should it have one, is zero at the basic
solution. -/
theorem isBinding_zero_iff (t : Tableau ℚ) (row : StandardRow ℚ) :
    t.isBinding 0 row = true ↔ ∀ c ∈ row.auxiliary, t.basicSolution c = 0 := by
  rw [isBinding]
  cases row.auxiliary with
  | none => simp
  | some c =>
    have hsome : (∀ d ∈ some c, t.basicSolution d = 0) ↔ t.basicSolution c = 0 := by simp
    rw [hsome, basicSolution, basicAssignment]
    cases hfind : t.rows.find? (·.basic == c) with
    | none => simp [hfind]
    | some a =>
      simp only [hfind, Option.map_some, Option.getD_some, decide_eq_true_iff, Scalar.abs_eq]
      exact abs_nonpos_iff

theorem Canonical.basicSolution_eq_zero {n c : ℕ} (h : t.Canonical n)
    (hcost : cellAt t.objective c ≠ 0) : t.basicSolution c = 0 := by
  apply basicAssignment_of_notMem
  intro hbasis
  apply hcost
  obtain ⟨k, a, ha, rfl⟩ := mem_basis_iff.mp hbasis
  exact h.objective_basic ha

/-! ## Constraints that bind -/

private theorem exists_constraint (hrow : (StandardForm.ofWellFormed p).rows[i]? = some row) :
    ∃ con, p.constraints[i]? = some con ∧ p.normalRows[i]? = some con.normalize
      ∧ row = con.normalize.place p.numVariables (p.numAuxiliary + p.numArtificial)
        (p.auxiliaryOf i) (p.artificialOf i) := by
  obtain ⟨normal, hnormal, hplaced⟩ := StandardForm.exists_of_getElem?_rows hrow
  have hcon := hnormal
  rw [Problem.normalRows, List.getElem?_map, Option.map_eq_some_iff] at hcon
  obtain ⟨con, hi, rfl⟩ := hcon
  exact ⟨con, hi, hnormal, hplaced⟩

section

variable (h : t.Represents (.ofWellFormed p))
  (hrow : (StandardForm.ofWellFormed p).rows[i]? = some row)

include h hrow

/-- **A constraint binds exactly if its two sides are equal** at the reported values. -/
theorem Represents.isBinding_eq (hp : p.WellFormed)
    (hgenuine : (StandardForm.ofWellFormed p).Genuine t.basicSolution) :
    t.isBinding 0 row = p.isTight (t.structuralValues (.ofWellFormed p) 0) i := by
  obtain ⟨con, hi, hnormal, hplaced⟩ := exists_constraint hrow
  rw [Bool.eq_iff_iff, isBinding_zero_iff, Problem.isTight_eq_true_iff hi,
    ← con.room_normalize_eq_zero_iff, hplaced, NormalRow.place]
  cases haux : con.normalize.relation.hasAuxiliary with
  | true =>
    have hlt := StandardForm.auxiliaryOf_lt_numColumns hnormal haux
    rw [← StandardForm.extension_auxiliaryOf hnormal haux,
      ← h.basicSolution_eq_extension hp hgenuine hlt]
    simp
  | false =>
    -- The row of an equality has an artificial variable, which is zero, in the place of its room.
    have hrel : con.normalize.relation = .eq := by
      simpa [Relation.hasAuxiliary] using haux
    have hart : con.normalize.relation.hasArtificial = true := by rw [hrel]; rfl
    have hroom := (StandardForm.holds_iff_room hp h.extends_structuralValues).mp
      ((h.holds_iff _).mp (holds_basicSolution h.canonical)) i _ hnormal
    rw [NormalRow.filledBy, hrel,
      hgenuine _ (StandardForm.isArtificial_artificialOf hnormal hart)] at hroom
    exact iff_of_true (by simp) hroom

theorem Represents.isBinding_of_rowPrice_ne_zero (hprice : t.rowPrice row ≠ 0) :
    t.isBinding 0 row = true := by
  obtain ⟨con, -, -, hplaced⟩ := exists_constraint hrow
  rw [rowPrice_place t hplaced] at hprice
  rw [isBinding_zero_iff, hplaced, NormalRow.place]
  cases hrel : con.normalize.relation with
  | le =>
    rw [hrel] at hprice
    simpa [Relation.hasAuxiliary] using h.canonical.basicSolution_eq_zero hprice
  | ge =>
    rw [hrel] at hprice
    simpa [Relation.hasAuxiliary] using h.canonical.basicSolution_eq_zero (neg_ne_zero.mp hprice)
  | eq => simp [Relation.hasAuxiliary]

end

/-! ## The analysis -/

private theorem filterMap_zipIdx {β γ : Type} {test : β → Bool} {test' : ℕ → Bool} (name : ℕ → γ)
    {l : List β} (start : ℕ) (h : ∀ i a, l[i]? = some a → test a = test' (start + i)) :
    (l.zipIdx start).filterMap (fun a ↦ if test a.1 then some (name a.2) else none)
      = ((List.range' start l.length).filter test').map name := by
  induction l generalizing start with
  | nil => rfl
  | cons a l ih =>
    have hrest := ih (start + 1) fun i b hb ↦ by
      rw [Nat.add_right_comm, Nat.add_assoc]
      exact h (i + 1) b hb
    have hfirst : test a = test' start := h 0 a rfl
    rw [List.zipIdx_cons, List.filterMap_cons, hrest, List.length_cons, List.range'_succ,
      List.filter_cons, hfirst]
    split_ifs <;> rfl

section

variable (hp : p.WellFormed) (h : t.Represents (.ofWellFormed p))
  (hgenuine : (StandardForm.ofWellFormed p).Genuine t.basicSolution)

include hp h hgenuine

/-- **The binding constraints** are the names of the tight ones, in order. -/
theorem Represents.bindingConstraints_analysis :
    (t.analysis p (.ofWellFormed p) 0).bindingConstraints
      = (p.tight (t.structuralValues (.ofWellFormed p) 0)).map p.constraintName := by
  rw [analysis, Problem.tight, List.range_eq_range', ← StandardForm.length_rows_ofWellFormed]
  apply filterMap_zipIdx
  intro i row hrow
  rw [Nat.zero_add]
  exact h.isBinding_eq hrow hp hgenuine

theorem Represents.mem_tight_of_shadowPrice {price : ShadowPrice ℚ}
    (hi : (t.analysis p (.ofWellFormed p) 0).shadowPrices[i]? = some price)
    (hprice : price.value ≠ 0) : i ∈ p.tight (t.structuralValues (.ofWellFormed p) 0) := by
  rw [analysis, List.getElem?_mapIdx, Option.map_eq_some_iff] at hi
  obtain ⟨row, hrow, rfl⟩ := hi
  have hrowPrice : t.rowPrice row ≠ 0 := by
    intro hzero
    apply hprice
    change t.shadowPrice _ 0 row = 0
    rw [shadowPrice_zero, turnedPrice, hzero]
    cases row.negated <;> cases p.sense <;> rfl
  rw [Problem.mem_tight_iff, ← h.isBinding_eq hrow hp hgenuine]
  exact h.isBinding_of_rowPrice_ne_zero hrow hrowPrice

omit hp hgenuine in
theorem Represents.value_eq_zero_of_reducedCost {j : ℕ} {cost : ReducedCost ℚ}
    (hj : (t.analysis p (.ofWellFormed p) 0).reducedCosts[j]? = some cost)
    (hcost : cost.cost ≠ 0) :
    cost.value = 0 ∧ (t.structuralValues (.ofWellFormed p) 0)[j]? = some 0 := by
  rw [analysis, List.getElem?_mapIdx, Option.map_eq_some_iff] at hj
  obtain ⟨v, hv, rfl⟩ := hj
  have hlt : j < p.numVariables := by
    have hlen := (List.getElem?_eq_some_iff.mp hv).1
    rwa [length_structuralValues] at hlen
  have hzero : v = 0 := by
    rw [show v = cellAt (t.structuralValues (.ofWellFormed p) 0) j by rw [cellAt, hv]; rfl,
      ← h.extends_structuralValues j hlt]
    change t.reducedCost 0 j ≠ 0 at hcost
    rw [h.canonical.reducedCost_zero] at hcost
    exact h.canonical.basicSolution_eq_zero hcost
  exact ⟨hzero, hzero ▸ hv⟩

end

end Tableau

/-! ## The analysis of an optimum -/

section

variable {s : Settings ℚ} {p : Problem ℚ} {sol : Solution ℚ}

/-- **Complementary slackness.** The binding constraints of an optimum are, in order, those whose
two sides are equal at the reported values. A constraint with a shadow price other than zero is one
of them, and a variable with a reduced cost other than zero has the value zero. -/
theorem slackness_of_solve (hexact : s.tolerance = 0) (h : solve s p = .ok sol)
    (hstatus : sol.status = .optimal) :
    ∃ x analysis, sol.values = some x ∧ sol.analysis = some analysis
      ∧ analysis.bindingConstraints = (p.tight x).map p.constraintName
      ∧ analysis.shadowPrices.map (·.constraint)
        = (List.range p.numConstraints).map p.constraintName
      ∧ (∀ (i : ℕ) (price : ShadowPrice ℚ), analysis.shadowPrices[i]? = some price →
        price.value ≠ 0 → i ∈ p.tight x)
      ∧ analysis.reducedCosts.map (·.variableName)
        = (List.range p.numVariables).map p.variableName
      ∧ ∀ (j : ℕ) (cost : ReducedCost ℚ), analysis.reducedCosts[j]? = some cost → cost.cost ≠ 0 →
        cost.value = 0 ∧ x[j]? = some 0 := by
  obtain ⟨hp, t, hrep, hbasis, hvalues, hanalysis⟩ := exists_tableau_of_solve hexact h hstatus
  have hgenuine := (hbasis.idle rfl).genuine_basicSolution hrep
  refine ⟨_, _, hvalues, hanalysis, hrep.bindingConstraints_analysis hp hgenuine,
    Tableau.constraints_shadowPrices p _, ?_, Tableau.variableNames_reducedCosts p _, ?_⟩
  · intro i price hi
    exact hrep.mem_tight_of_shadowPrice hp hgenuine hi
  · intro j cost hj
    exact hrep.value_eq_zero_of_reducedCost hj

/-- At the optimum of `blend` all constraints but the last are tight, the second one a copy of the
first and the third one turned. The first and the fourth have a price. -/
theorem slackness_of_solve_blend : Settings.zeroTolerance.tolerance = 0 ∧ ∃ sol analysis,
    solve .zeroTolerance blend = .ok sol ∧ sol.status = .optimal ∧ sol.analysis = some analysis
      ∧ blend.tight [1, 0, 3] = [0, 1, 2, 3]
      ∧ analysis.bindingConstraints = ["C1", "C2", "C3", "C4"]
      ∧ analysis.shadowPrices.map (·.value) = [1 / 2, 0, 0, 3 / 2, 0]
      ∧ (∀ (i : ℕ) (price : ShadowPrice ℚ), analysis.shadowPrices[i]? = some price →
        price.value ≠ 0 → i ∈ blend.tight [1, 0, 3])
      ∧ ∀ (j : ℕ) (cost : ReducedCost ℚ), analysis.reducedCosts[j]? = some cost → cost.cost ≠ 0 →
        ([1, 0, 3] : List ℚ)[j]? = some 0 := by
  obtain ⟨sol, h, hsol⟩ := exists_solve_eq_of_map (s := .zeroTolerance) (p := blend)
    (f := fun sol ↦ (sol.status, sol.values, sol.analysis.map (·.shadowPrices.map (·.value))))
    (b := (.optimal, some [1, 0, 3], some [1 / 2, 0, 0, 3 / 2, 0])) (by decide +kernel)
  simp only [Prod.mk.injEq] at hsol
  obtain ⟨hstatus, hvalues, hprices⟩ := hsol
  obtain ⟨x, analysis, hx, ha, hbinding, -, hprice, -, hcost⟩ := slackness_of_solve rfl h hstatus
  obtain rfl := Option.some_inj.mp (hx.symm.trans hvalues)
  rw [ha, Option.map_some, Option.some_inj] at hprices
  have htight : blend.tight [1, 0, 3] = [0, 1, 2, 3] := by decide +kernel
  refine ⟨rfl, sol, analysis, h, hstatus, ha, htight, ?_, hprices, hprice, fun j cost hj hne ↦
    (hcost j cost hj hne).2⟩
  rw [hbinding, htight]
  decide +kernel

end

end LinearProgramming
