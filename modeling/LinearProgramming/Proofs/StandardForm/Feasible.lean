import LinearProgramming.Proofs.StandardForm.Points

/-!
# What the standard form says of a problem

Bringing a problem into standard form keeps its points. A vector is feasible exactly if it is
nowhere negative and the slacks and surpluses can be given values that are nowhere negative either,
with which every row holds with equality and no artificial variable is needed. There is no choice in
these values: each of them is the room of its row.

The rows come out with right-hand sides that are not negative, and the costs come out as those of
the problem, negated where it is a minimization.
-/

open Finset

namespace LinearProgramming

namespace StandardForm

/-- The values `u` of all columns, with those of `x` at the structural ones and zeros at the
artificial ones, turn every row into an equality. -/
structure SolvedBy (form : StandardForm ℚ) (x u : List ℚ) : Prop where
  length_eq : u.length = form.numColumns
  structural : u.take form.numStructural = x
  artificial : ∀ c, form.isArtificial c = true → cellAt u c = 0
  row : ∀ row ∈ form.rows, Scalar.dot row.coefficients u = row.rhs

variable {p : Problem ℚ} {x u : List ℚ}

theorem solvedBy_iff (hp : p.WellFormed) (hlen : x.length = p.numVariables) :
    (ofWellFormed p).SolvedBy x u ↔ u.length = (ofWellFormed p).numColumns
      ∧ Extends p (cellAt u) x ∧ (ofWellFormed p).Genuine (cellAt u)
      ∧ (ofWellFormed p).Holds (cellAt u) := by
  have hdot : ∀ row ∈ (ofWellFormed p).rows, Scalar.dot row.coefficients u
      = ∑ c ∈ range (ofWellFormed p).numColumns, cellAt row.coefficients c * cellAt u c :=
    fun row hrow ↦ Scalar.dot_eq_sum (length_of_mem_rows hp hrow).le u
  constructor
  · rintro ⟨hu, hstructural, hartificial, hrow⟩
    refine ⟨hu, fun c hc ↦ ?_, hartificial, fun row hmem ↦ ?_⟩
    · rw [← hstructural, numStructural_ofWellFormed, cellAt_take hc]
    · rw [← hdot row hmem, hrow row hmem]
  · rintro ⟨hu, hextends, hgenuine, hholds⟩
    have hle : p.numVariables ≤ u.length := hu ▸ numVariables_le_numColumns p
    refine ⟨hu, ?_, hgenuine, fun row hmem ↦ (hdot row hmem).trans (hholds row hmem)⟩
    refine eq_of_cellAt (n := p.numVariables) ?_ hlen fun c hc ↦ ?_
    · rw [List.length_take, numStructural_ofWellFormed, Nat.min_eq_left hle]
    · rw [← hextends c hc, numStructural_ofWellFormed, cellAt_take hc]

/-- **No choice is left.** Where no artificial variable is used, the column of a slack or surplus
holds the room of its row. -/
theorem eq_extension (hp : p.WellFormed) {u : ℕ → ℚ} (hx : Extends p u x)
    (hgenuine : (ofWellFormed p).Genuine u) (hu : (ofWellFormed p).Holds u) {c : ℕ}
    (hc : c < (ofWellFormed p).numColumns) : u c = extension p x c := by
  rcases column_cases hc with hstructural | ⟨i, row, hi, haux, rfl⟩ | ⟨i, row, hi, hart, rfl⟩
  · rw [hx c hstructural, extends_extension p x c hstructural]
  · have hroom := (holds_iff_room hp hx).mp hu i row hi
    rw [extension_auxiliaryOf hi haux, hroom, NormalRow.filledBy]
    cases hrel : row.relation with
    | le => rfl
    | ge =>
      have hart : row.relation.hasArtificial = true := by rw [hrel]; rfl
      rw [hgenuine _ (isArtificial_artificialOf hi hart), sub_zero]
    | eq =>
      rw [hrel] at haux
      exact absurd haux (by decide)
  · have hartificial := isArtificial_artificialOf hi hart
    rw [hgenuine _ hartificial, genuine_extension p x _ hartificial]

theorem SolvedBy.eq_map_extension (hp : p.WellFormed) (hlen : x.length = p.numVariables)
    (h : (ofWellFormed p).SolvedBy x u) :
    u = (List.range (ofWellFormed p).numColumns).map (extension p x) := by
  obtain ⟨hu, hextends, hgenuine, hholds⟩ := (solvedBy_iff hp hlen).mp h
  refine eq_of_cellAt hu (by rw [List.length_map, List.length_range]) fun c hc ↦ ?_
  rw [eq_extension hp hextends hgenuine hholds hc, cellAt_map_of_getElem? (List.getElem?_range hc)]

theorem cellAt_map_extension (p : Problem ℚ) (x : List ℚ) :
    cellAt ((List.range (ofWellFormed p).numColumns).map (extension p x)) = extension p x := by
  funext c
  by_cases hc : c < (ofWellFormed p).numColumns
  · exact cellAt_map_of_getElem? (List.getElem?_range hc) _
  · rw [cellAt_eq_zero (by rw [List.length_map, List.length_range]; omega), extension,
      List.getElem?_eq_none (not_lt.mp hc)]

/-- **Feasible points are the solutions without artificial variables.** -/
theorem isFeasible_iff_solvedBy (hp : p.WellFormed) (hlen : x.length = p.numVariables) :
    p.isFeasible x 0 = true ↔ (∀ v ∈ x, 0 ≤ v)
      ∧ ∃ u, (ofWellFormed p).SolvedBy x u ∧ ∀ v ∈ u, 0 ≤ v := by
  constructor
  · intro h
    obtain ⟨hholds, hnonneg⟩ := extension_of_isFeasible hp h
    obtain ⟨-, hpoint, -⟩ := (p.isFeasible_iff x 0).mp h
    refine ⟨by simpa using hpoint, (List.range (ofWellFormed p).numColumns).map (extension p x),
      (solvedBy_iff hp hlen).mpr ?_, ?_⟩
    · rw [cellAt_map_extension]
      exact ⟨by rw [List.length_map, List.length_range], extends_extension p x,
        genuine_extension p x, hholds⟩
    · rw [List.forall_mem_map]
      exact fun c _ ↦ hnonneg c
  · rintro ⟨-, u, hu, hnonneg⟩
    obtain ⟨hlen', hextends, hgenuine, hholds⟩ := (solvedBy_iff hp hlen).mp hu
    refine isFeasible_of_holds hp hlen hextends hholds (fun c ↦ ?_) hgenuine
    by_cases hc : c < u.length
    · rw [cellAt_eq_getElem hc]
      exact hnonneg _ (List.getElem_mem hc)
    · rw [cellAt_eq_zero (not_lt.mp hc)]

theorem rhs_nonneg_of_mem_rows {row : StandardRow ℚ} (h : row ∈ (ofWellFormed p).rows) :
    0 ≤ row.rhs := by
  obtain ⟨i, hi⟩ := List.mem_iff_getElem?.mp h
  obtain ⟨normal, hnormal, rfl⟩ := exists_of_getElem?_rows hi
  exact rhs_normalRow_nonneg hnormal

theorem dot_objective (p : Problem ℚ) (x : List ℚ) :
    Scalar.dot (ofWellFormed p).objective x
      = if (ofWellFormed p).signFlipped then -p.evaluate x else p.evaluate x := by
  have hx : Extends p (cellAt x) x := fun _ _ ↦ rfl
  rw [← worth_two_eq_dot p hx, worth_two hx]
  rw [signFlipped, ofWellFormed]
  cases p.sense <;> rfl

end StandardForm

/-- **The standard form keeps the problem.** A vector is feasible exactly if it is nowhere negative
and extends, by slacks and surpluses that are not negative and with no artificial variable, to
values that turn every row into an equality; these values are then the only ones, also among those
that are negative somewhere. No right-hand side is negative, and the costs are worth the objective,
negated exactly where the form says that they are. -/
theorem isFeasible_iff_of_ofProblem {p : Problem ℚ} (hp : p.WellFormed) :
    ∃ form, StandardForm.ofProblem p = .ok form
      ∧ (∀ x : List ℚ, x.length = p.numVariables →
        (p.isFeasible x 0 = true ↔
          (∀ v ∈ x, 0 ≤ v) ∧ ∃ u, form.SolvedBy x u ∧ ∀ v ∈ u, 0 ≤ v)
        ∧ (∀ u u', form.SolvedBy x u → form.SolvedBy x u' → u = u')
        ∧ Scalar.dot form.objective x
          = if form.signFlipped then -p.evaluate x else p.evaluate x)
      ∧ ∀ row ∈ form.rows, 0 ≤ row.rhs := by
  refine ⟨.ofWellFormed p, ?_, fun x hlen ↦ ⟨?_, fun u u' hu hu' ↦ ?_, ?_⟩, fun row ↦ ?_⟩
  · rw [StandardForm.ofProblem, show p.validate = .ok () from hp]
  · exact StandardForm.isFeasible_iff_solvedBy hp hlen
  · exact (hu.eq_map_extension hp hlen).trans (hu'.eq_map_extension hp hlen).symm
  · exact StandardForm.dot_objective p x
  · exact StandardForm.rhs_nonneg_of_mem_rows

/-- An equality, an upper bound that is a lower one in disguise, and an upper bound. -/
def shipment : Problem ℚ where
  sense := .minimize
  objective := [4, 1]
  constraints := [⟨none, [1, 1], .eq, 3⟩, ⟨none, [-1, 0], .le, -1⟩, ⟨none, [0, 1], .le, 5 / 2⟩]
  variableNames := []

/-- Of two points that are nowhere negative the first leaves a surplus of one and a slack of three
halves. The second would need a surplus below zero. -/
theorem isFeasible_iff_of_ofProblem_shipment : shipment.WellFormed ∧ ∃ form,
    StandardForm.ofProblem shipment = .ok form ∧ form.signFlipped = true
      ∧ form.SolvedBy [2, 1] [2, 1, 1, 3 / 2, 0, 0]
      ∧ (∀ u, form.SolvedBy [2, 1] u → u = [2, 1, 1, 3 / 2, 0, 0])
      ∧ shipment.isFeasible [2, 1] 0 = true
      ∧ shipment.isFeasible [1 / 2, 5 / 2] 0 = false
      ∧ (¬∃ u, form.SolvedBy [1 / 2, 5 / 2] u ∧ ∀ v ∈ u, 0 ≤ v)
      ∧ Scalar.dot form.objective [2, 1] = -9 ∧ ∀ row ∈ form.rows, 0 ≤ row.rhs := by
  have hp : shipment.WellFormed := by rfl
  have hinfeasible : shipment.isFeasible [1 / 2, 5 / 2] 0 = false := by decide +kernel
  obtain ⟨form, hform, hpoint, hrhs⟩ := isFeasible_iff_of_ofProblem hp
  obtain rfl : .ofWellFormed shipment = form := by
    rw [StandardForm.ofProblem, show shipment.validate = .ok () from hp] at hform
    exact Except.ok.inj hform
  obtain ⟨hiff, hunique, hobjective⟩ := hpoint [2, 1] rfl
  have hsolved : (StandardForm.ofWellFormed shipment).SolvedBy [2, 1] [2, 1, 1, 3 / 2, 0, 0] := by
    refine ⟨by decide +kernel, by decide +kernel, fun c hc ↦ ?_, by decide +kernel⟩
    match c with
    | 0 | 1 | 2 | 3 => exact absurd hc (by decide +kernel)
    | 4 | 5 | _ + 6 => rfl
  refine ⟨hp, _, hform, rfl, hsolved, fun u hu ↦ hunique u _ hu hsolved, ?_, hinfeasible, ?_, ?_,
    hrhs⟩
  · exact hiff.mpr ⟨by decide +kernel, _, hsolved, by decide +kernel⟩
  · intro h
    rw [(hpoint [1 / 2, 5 / 2] rfl).1.mpr ⟨by decide +kernel, h⟩] at hinfeasible
    cases hinfeasible
  · rw [hobjective]
    decide +kernel

end LinearProgramming
