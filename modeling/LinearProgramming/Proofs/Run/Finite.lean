import LinearProgramming.Proofs.Run.Units
import LinearProgramming.Proofs.Tableau.Finite
import LinearProgramming.Proofs.Tableau.Shape

/-!
# Overflow along a solve

Where the numbers of a solve stop being finite. The first tableau that is not finite follows one
that is, or is the first of all. Had the tableau before it moderate numbers only, what the move
computes from them would have room. So a number has been large before any is infinite or undefined,
either in the problem or in a tableau all of whose cells are still finite.

That the tableau before is finite is what makes its basic columns exact units, and that these are
exact is what keeps the sums of a new objective row short.
-/

open LinearProgramming.Double

namespace LinearProgramming

variable {p : Problem Float} {s : Settings Float} {ε : Float} {t t' : Tableau Float}

/-- A tableau without large numbers. -/
def Tableau.AllModerate (t : Tableau Float) : Prop := ∀ cells ∈ t.grid, ∀ x ∈ cells, Moderate x

theorem Tableau.AllModerate.within (h : t.AllModerate) : t.AllWithin (2 ^ (482 : ℤ)) where
  rows a ha x hx := ((forall_mem_grid_iff.mp h).1 a ha x hx).within
  objective x hx := ((forall_mem_grid_iff.mp h).2 x hx).within

theorem within_phaseTwoCosts (h : ∀ x ∈ p.numbers, Moderate x) :
    ∀ x ∈ Tableau.phaseTwoCosts (.ofWellFormed p), Within (2 ^ (482 : ℤ)) x :=
  Tableau.forall_mem_phaseTwoCosts (within_zero (by positivity)) (fun _ ↦ Within.neg)
    fun x hx ↦ (h x (List.mem_append_left _ hx)).within

/-- **A moderate problem starts finite.** -/
theorem finite_initial (hp : p.WellFormed) (hm : p.numConstraints < 2 ^ 52)
    (h : ∀ x ∈ p.numbers, Moderate x) : (Tableau.initial (.ofWellFormed p)).Finite := by
  have hunits := (Tableau.units_initial hp).rows
  have hrows : (Tableau.laidOut (.ofWellFormed p)).rows.length < 2 ^ 52 := by
    rw [Tableau.laidOut, List.length_map, StandardForm.length_rows_ofWellFormed]
    exact hm
  have hzero : Within (2 ^ (482 : ℤ)) 0 := within_zero (by positivity)
  have hone : Within (2 ^ (482 : ℤ)) 1 := within_one (one_le_zpow₀ one_le_two (by norm_num))
  have hcells : ∀ a ∈ (Tableau.laidOut (.ofWellFormed p)).rows, ∀ x ∈ a.cells,
      Within (2 ^ (482 : ℤ)) x := by
    intro a ha
    obtain ⟨row, hrow, rfl⟩ := List.mem_map.mp ha
    exact StandardForm.forall_mem_rows hzero hone (fun _ ↦ Within.neg) (fun x hx ↦ (h x hx).within)
      row hrow
  rw [Tableau.initial_eq_laidOut] at hunits ⊢
  split_ifs at hunits ⊢
  · exact Tableau.withCosts_finite (by norm_num) (by norm_num) hunits hrows hcells
      (Tableau.length_phaseOneCosts _)
      (Tableau.forall_mem_phaseOneCosts hzero hone (fun _ ↦ Within.neg) _)
  · exact Tableau.withCosts_finite (by norm_num) (by norm_num) hunits hrows hcells
      (Tableau.length_phaseTwoCosts p) (within_phaseTwoCosts h)

/-- **A move from moderate numbers** leads to finite ones. -/
theorem Move.finite {pivot : Option (ℕ × ℕ)} (hm : p.numConstraints < 2 ^ 52) (hε : 1e-9 ≤ ε)
    (hnumbers : ∀ x ∈ p.numbers, Moderate x) (h : Move (.ofWellFormed p) ε t pivot t')
    (hunits : t.Units (StandardForm.ofWellFormed p).numColumns) (ht : t.AllModerate) :
    t'.Finite := by
  have hwithin := ht.within
  have hfinite : ∀ {i j : ℕ} {a : TableauRow Float}, t.rows[i]? = some a →
      Scalar.isFinite (cellAt a.cells j) = true := fun ha ↦
    (cellAt_of_forall_mem (within_zero (by positivity))
      (hwithin.rows _ (List.mem_of_getElem? ha)) _).isFinite
  rcases h with ⟨-, -, hi⟩ | ⟨-, hart, hj⟩ | h
  · obtain ⟨a, ha, hcell⟩ := Tableau.leavingRow_eq_some hi
    exact (hwithin.pivot (c := 30) (by norm_num) (by norm_num) (by norm_num) ha
      (le_size_of_not_le hε (hfinite ha) hcell)).finite
  · obtain ⟨a, ha, -⟩ := Tableau.exists_row_of_basis_any hart
    obtain ⟨-, -, hcell⟩ := Tableau.mem_of_replacementColumn_eq_some hj
    rw [Tableau.cell, Tableau.row, ha] at hcell
    exact (hwithin.pivot (c := 30) (by norm_num) (by norm_num) (by norm_num) ha
      (le_size_of_lt_abs hε (hfinite ha) hcell)).finite
  · have hrows : t.rows.length < 2 ^ 52 := by
      change t.numRows < _
      rwa [h.numRows_eq, StandardForm.length_rows_ofWellFormed]
    exact Tableau.withCosts_finite (by norm_num) (by norm_num) hunits.rows hrows hwithin.rows
      (Tableau.length_phaseTwoCosts p) (within_phaseTwoCosts hnumbers)

/-- **Every tableau of a trail is finite** if those of them that are finite are moderate. -/
theorem finite_of_getElem?_trail (hp : p.WellFormed) (hm : p.numConstraints < 2 ^ 52)
    (hε : 1e-9 ≤ s.tolerance) (hnumbers : ∀ x ∈ p.numbers, Moderate x)
    (htrail : ∀ step ∈ trail s (.ofWellFormed p), step.tableau.Finite → step.tableau.AllModerate)
    {k : ℕ} {step : Step Float} (hstep : (trail s (.ofWellFormed p))[k]? = some step) :
    step.tableau.Finite := by
  induction k using Nat.strong_induction_on generalizing step with
  | _ k ih =>
    cases k with
    | zero =>
      rw [← List.head?_eq_getElem?, head?_trail, Option.some_inj] at hstep
      rw [← hstep, Tableau.tableau_toStep]
      exact finite_initial hp hm hnumbers
    | succ k =>
      have hk : k < (trail s (.ofWellFormed p)).length :=
        Nat.lt_of_succ_lt (List.getElem?_eq_some_iff.mp hstep).1
      have hbefore := List.getElem?_eq_getElem hk
      have hunits := units_of_getElem?_trail hp (zero_le_of_billionth_le hε) hbefore
        fun l hl earlier hearlier ↦ ih l (Nat.lt_succ_of_lt hl) hearlier
      exact (move_of_getElem?_trail hbefore hstep).finite hm hε hnumbers hunits
        (htrail _ (List.getElem_mem hk) (ih k (Nat.lt_succ_self k) hbefore))

end LinearProgramming
