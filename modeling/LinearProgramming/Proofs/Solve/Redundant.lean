import LinearProgramming.Proofs.Run.Leftover
import LinearProgramming.Proofs.Solve.Trail

/-!
# Redundant equalities

With exact arithmetic and tolerance zero the artificial variables that are still basic when phase
two begins stay where they are to the end. Each belongs to an equality, its row is zero but for
artificial columns, and the equalities they belong to follow from the other constraints.

The trail shows the tableau before the turn to phase two, which is the one the exchanges end with,
and all those after it.
-/

namespace LinearProgramming

variable {s : Settings ℚ} {p : Problem ℚ}

/-- What a step of phase two keeps of the tableau that phase one ended with: it has been reached in
phase two, by a pivot on a genuine column if by any, and the same artificial variables are basic in
the same rows. -/
structure Step.Continues (form : StandardForm ℚ) (t : Tableau ℚ) (d : Step ℚ) : Prop where
  reached : Reached form 0 (.optimizing .two) d.tableau
  isArtificial_eq_false : ∀ {i j : ℕ}, d.pivot = some (i, j) → form.isArtificial j = false
  getElem?_basis_iff : ∀ {c : ℕ}, form.isArtificial c = true →
    ∀ i : ℕ, d.tableau.basis[i]? = some c ↔ t.basis[i]? = some c

theorem Step.Continues.step (hp : p.WellFormed) {t : Tableau ℚ} {d e : Step ℚ}
    (h : d.Continues (.ofWellFormed p) t)
    (hmove : Move (.ofWellFormed p) 0 d.tableau e.pivot e.tableau) :
    e.Continues (.ofWellFormed p) t := by
  have hphase := h.reached.phase_eq
  obtain ⟨i, j, hpivot, heq, hij, -⟩ := hmove.chooses_two hphase
  refine ⟨?_, fun hpivot' ↦ ?_, fun hc k ↦ ?_⟩
  · rw [heq]
    exact h.reached.pivot hij.1 hij.2
  · rw [hpivot, Option.some_inj, Prod.mk.injEq] at hpivot'
    exact hpivot'.2 ▸ (Tableau.enters_of_enteringColumn hij.1).isArtificial_eq_false hphase
  · rw [heq, ((h.reached.exact hp).idle rfl).getElem?_basis_pivot_iff
      (h.reached.represents hp le_rfl) hphase hij hc]
    exact h.getElem?_basis_iff hc k

theorem continues_of_trail (hexact : s.tolerance = 0) (hp : p.WellFormed) {t : Tableau ℚ} {k : ℕ}
    {b : Step ℚ} (hb : (trail s (.ofWellFormed p))[k]? = some b)
    (hbegin : b.Continues (.ofWellFormed p) t) (n : ℕ) {d : Step ℚ}
    (hd : (trail s (.ofWellFormed p))[k + n]? = some d) : d.Continues (.ofWellFormed p) t := by
  induction n generalizing d with
  | zero =>
    obtain rfl := Option.some_inj.mp (hb.symm.trans hd)
    exact hbegin
  | succ n ih =>
    have hlt := (List.getElem?_eq_some_iff.mp hd).1
    have he : (trail s (.ofWellFormed p))[k + n]? = some (trail s (.ofWellFormed p))[k + n] :=
      List.getElem?_eq_getElem (by omega)
    have hmove := move_of_getElem?_trail he hd
    rw [hexact] at hmove
    exact (ih he).step hp hmove

/-- **Artificial variables that stay mark redundant equalities.** Where a trail passes from phase
one to phase two, every artificial variable that is still basic belongs to an equality, and its row
is zero in all genuine columns and in the constants. In all later tableaus the same artificial
variables are basic in the same rows, these rows are still zero, and no artificial column is pivoted
in. Without these equalities the problem has the same feasible points. -/
theorem redundant_of_trail (hexact : s.tolerance = 0) (hp : p.WellFormed) {k : ℕ} {a b : Step ℚ}
    (ha : (trail s (.ofWellFormed p))[k]? = some a)
    (hb : (trail s (.ofWellFormed p))[k + 1]? = some b) (hone : a.phase = .one)
    (htwo : b.phase = .two) :
    (∀ i c, a.tableau.basis[i]? = some c → (StandardForm.ofWellFormed p).isArtificial c = true →
      a.tableau.ZeroRow (.ofWellFormed p) i
        ∧ ∃ l con, (StandardForm.ofWellFormed p).columns[c]? = some (.artificial l)
          ∧ p.constraints[l]? = some con ∧ con.relation = .eq)
    ∧ (∀ l d, k < l → (trail s (.ofWellFormed p))[l]? = some d → d.phase = .two
      ∧ (∀ i j, d.pivot = some (i, j) → (StandardForm.ofWellFormed p).isArtificial j = false)
      ∧ ∀ i c, (StandardForm.ofWellFormed p).isArtificial c = true →
        (d.tableau.basis[i]? = some c ↔ a.tableau.basis[i]? = some c)
          ∧ (d.tableau.basis[i]? = some c → d.tableau.ZeroRow (.ofWellFormed p) i))
    ∧ ∀ x, (p.removeConstraints (a.tableau.leftover (.ofWellFormed p))).isFeasible x 0
      = p.isFeasible x 0 := by
  have hturn := move_of_getElem?_trail ha hb
  rw [hexact] at hturn
  obtain ⟨hr, hnone, heq⟩ := hturn.enters_two hone htwo
  have hrep := hr.represents hp le_rfl
  have hidle := (hr.exact hp).idle rfl
  refine ⟨fun i c hi hc ↦ ⟨hidle.zeroRow hrep hi hc, hidle.exists_constraint hp hrep hi hc⟩, ?_,
    fun x ↦ hidle.isFeasible_removeConstraints hp hrep x⟩
  have hbegin : b.Continues (.ofWellFormed p) a.tableau := by
    refine ⟨heq ▸ hr.install, fun hpivot ↦ ?_, fun _ i ↦ by rw [heq]; rfl⟩
    rw [hnone] at hpivot
    cases hpivot
  intro l d hl hd
  have hcontinues := continues_of_trail hexact hp hb hbegin (l - (k + 1)) (d := d) (by
    rwa [Nat.add_sub_cancel' hl])
  have hreached := hcontinues.reached
  exact ⟨hreached.phase_eq, fun i j ↦ hcontinues.isArtificial_eq_false, fun i c hc ↦
    ⟨hcontinues.getElem?_basis_iff hc i,
      fun hi ↦ ((hreached.exact hp).idle rfl).zeroRow (hreached.represents hp le_rfl) hi hc⟩⟩

/-- The second equality states the first one twice over. Its artificial variable is column six. -/
theorem redundant_of_trail_pinned : Settings.zeroTolerance.tolerance = 0 ∧ pinned.WellFormed
    ∧ ∃ a b d : Step ℚ, (trail .zeroTolerance (.ofWellFormed pinned))[2]? = some a
      ∧ (trail .zeroTolerance (.ofWellFormed pinned))[3]? = some b
      ∧ (trail .zeroTolerance (.ofWellFormed pinned))[5]? = some d
      ∧ a.phase = .one ∧ b.phase = .two
      ∧ a.tableau.basis[1]? = some 6 ∧ a.tableau.ZeroRow (.ofWellFormed pinned) 1
      ∧ (∃ con, pinned.constraints[1]? = some con ∧ con.relation = .eq)
      ∧ d.phase = .two ∧ d.pivot = some (0, 1)
      ∧ d.tableau.basis[1]? = some 6 ∧ d.tableau.ZeroRow (.ofWellFormed pinned) 1
      ∧ ∀ x, (pinned.removeConstraints [1]).isFeasible x 0 = pinned.isFeasible x 0 := by
  have hp : pinned.WellFormed := rfl
  have ha : (trail .zeroTolerance (.ofWellFormed pinned))[2]?.map (fun step : Step ℚ ↦
      (step.phase, step.tableau.basis[1]?, step.tableau.leftover (.ofWellFormed pinned)))
      = some (.one, some 6, [1]) := by decide +kernel
  have hb : (trail .zeroTolerance (.ofWellFormed pinned))[3]?.map (fun step : Step ℚ ↦ step.phase)
      = some .two := by decide +kernel
  have hd : (trail .zeroTolerance (.ofWellFormed pinned))[5]?.map (fun step : Step ℚ ↦ step.pivot)
      = some (some (0, 1)) := by decide +kernel
  obtain ⟨a, ha, hfirst⟩ := Option.map_eq_some_iff.mp ha
  obtain ⟨b, hb, htwo⟩ := Option.map_eq_some_iff.mp hb
  obtain ⟨d, hd, hpivot⟩ := Option.map_eq_some_iff.mp hd
  simp only [Prod.mk.injEq] at hfirst
  obtain ⟨hone, hbasis, hleftover⟩ := hfirst
  have hart : (StandardForm.ofWellFormed pinned).isArtificial 6 = true := by decide +kernel
  have hcol : (StandardForm.ofWellFormed pinned).columns[6]? = some (.artificial 1) := by
    decide +kernel
  obtain ⟨hbefore, hafter, hsame⟩ :=
    redundant_of_trail (s := .zeroTolerance) rfl hp ha hb hone htwo
  obtain ⟨hzero, l, con, hcol', hcon, hrel⟩ := hbefore 1 6 hbasis hart
  obtain rfl : 1 = l := by simpa [hcol] using hcol'
  obtain ⟨hphase, -, hkeep⟩ := hafter 5 d (by omega) hd
  obtain ⟨hiff, hzero'⟩ := hkeep 1 6 hart
  have hbasis' := hiff.mpr hbasis
  rw [hleftover] at hsame
  exact ⟨rfl, hp, a, b, d, ha, hb, hd, hone, htwo, hbasis, hzero, ⟨con, hcon, hrel⟩, hphase, hpivot,
    hbasis', hzero' hbasis', hsame⟩

end LinearProgramming
