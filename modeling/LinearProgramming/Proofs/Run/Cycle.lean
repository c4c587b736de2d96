import LinearProgramming.Proofs.Run.Settles

/-!
# Cycles

The rules may choose pivots that leave the objective where it is, and with them a solve may come
back to a basis it has had before. With tolerance zero that is the only way in which it can go on
for ever: a phase in which no basis comes twice is over before there are as many pivots as bases.

The exchanges between the phases follow other rules and may well come by a basis of phase one, but
there is at most one for each row. So a solve that ends has made no more pivots than there are bases
for both phases and rows together, and one that is stopped later than that cycles.
-/

namespace LinearProgramming

namespace Run

variable {s : Settings ℚ} {p : Problem ℚ} {form : StandardForm ℚ} {phase : Phase} {r r' q : Run ℚ}
  {status : Status} {rows : List ℕ} {n : ℕ}

/-! ## Runs of a phase -/

/-- That a solve comes back, in the same phase, to a tableau it has had before, but for the order of
the rows. -/
def Cycles (s : Settings ℚ) (form : StandardForm ℚ) : Prop :=
  ∃ phase r q, Passes s form (.optimizing phase) r ∧ Passes s form (.optimizing phase) q
    ∧ r.iterations < q.iterations ∧ r.tableau.Similar q.tableau

theorem Passes.exists_of_not_settles (h : Passes s form (.optimizing phase) r)
    (hnever : ∀ n, ¬r.tableau.Settles form s.tolerance n) {k : ℕ}
    (hk : r.iterations + k ≤ s.maxIterations) :
    ∃ q, Passes s form (.optimizing phase) q ∧ q.iterations = r.iterations + k
      ∧ ∀ n, ¬q.tableau.Settles form s.tolerance n := by
  induction k with
  | zero => exact ⟨r, h, rfl, hnever⟩
  | succ k ih =>
    obtain ⟨q, hq, hiter, hqnever⟩ := ih (by omega)
    obtain ⟨i, j, hij⟩ : ∃ i j, q.tableau.Chooses form s.tolerance i j := by
      by_contra hnone
      exact hqnever 0 (.stop fun i j hij ↦ hnone ⟨i, j, hij⟩)
    refine ⟨q.pivot s i j, hq.pivot hij.1 hij.2 (by omega), ?_, fun n hn ↦ ?_⟩
    · rw [iterations_pivot, hiter]
      rfl
    · rw [tableau_pivot] at hn
      exact hqnever (n + 1) (.pivot hij hn)

theorem Passes.exists_concludes_of_settles (h : Passes s form (.optimizing phase) r)
    (hn : r.tableau.Settles form s.tolerance n) (hlimit : r.iterations + n ≤ s.maxIterations)
    (hlast : ∀ {q : Run ℚ}, Passes s form (.optimizing phase) q → q.iterations = r.iterations + n →
      (∀ i j, ¬q.tableau.Chooses form s.tolerance i j) →
      ∃ r' status, Concludes s form (.optimizing phase) q r' status) :
    ∃ r' status, Concludes s form (.optimizing phase) r r' status := by
  induction n generalizing r with
  | zero =>
    cases hn with
    | stop hnone => exact hlast h rfl hnone
  | succ n ih =>
    cases hn with
    | @pivot _ i j _ hij hrest =>
      rw [← tableau_pivot s] at hrest
      obtain ⟨r', status, hconcludes⟩ := ih (h.pivot hij.1 hij.2 (by omega)) hrest
        (by rw [iterations_pivot]; omega)
        fun hq hiter ↦ hlast hq (by rw [hiter, iterations_pivot]; omega)
      exact ⟨r', status, .pivot hij.1 hij.2 hconcludes⟩

section Exact

variable (hexact : s.tolerance = 0) (hp : p.WellFormed)

include hexact hp

/-! ## The number of pivots -/

theorem Passes.represents {stage : Stage} (h : Passes s (.ofWellFormed p) stage r) :
    r.tableau.Represents (.ofWellFormed p) := h.reached.represents hp hexact.ge

theorem settles_lt_numBases {stage : Stage} {t : Tableau ℚ}
    (h : Reached (.ofWellFormed p) s.tolerance stage t)
    (hn : t.Settles (.ofWellFormed p) s.tolerance n) :
    n < (StandardForm.ofWellFormed p).numBases := by
  rw [hexact] at hn
  exact hn.lt_numBases (h.represents hp hexact.ge) h.numRows_eq

theorem Concludes.iterations_le_two
    (h : Concludes s (.ofWellFormed p) (.optimizing .two) r r' status)
    (hr : Reached (.ofWellFormed p) s.tolerance (.optimizing .two) r.tableau) :
    r'.iterations ≤ r.iterations + (StandardForm.ofWellFormed p).numBases := by
  obtain ⟨n, hn, heq⟩ := h.settles_two hr
  have hlt := settles_lt_numBases hexact hp hr hn
  omega

theorem Concludes.iterations_le_exchanging
    (h : Concludes s (.ofWellFormed p) (.exchanging rows) r r' status)
    (hr : Reached (.ofWellFormed p) s.tolerance (.exchanging rows) r.tableau) : r'.iterations
      ≤ r.iterations + rows.length + (StandardForm.ofWellFormed p).numBases := by
  induction rows generalizing r with
  | nil =>
    cases h with
    | enterPhaseTwo hrest =>
      have hle := hrest.iterations_le_two hexact hp (by
        rw [tableau_enterPhaseTwo]
        exact hr.install)
      rwa [iterations_enterPhaseTwo] at hle
  | cons i rows ih =>
    rw [List.length_cons]
    cases h with
    | pass hkeep hrest =>
      have hle := ih hrest (hr.pass fun hart ↦ absurd hart hkeep)
      omega
    | redundant _ hnone hrest =>
      have hle := ih hrest (hr.pass fun _ ↦ hnone)
      exact hle.trans (by simp only [report]; omega)
    | exchange hart hj hrest =>
      have hle := ih hrest (by
        rw [tableau_pivot]
        exact hr.exchange hart hj)
      rw [iterations_pivot] at hle
      omega

theorem Concludes.iterations_le_one
    (h : Concludes s (.ofWellFormed p) (.optimizing .one) r r' status)
    (hr : Reached (.ofWellFormed p) s.tolerance (.optimizing .one) r.tableau) : r'.iterations
      ≤ r.iterations + 2 * (StandardForm.ofWellFormed p).numBases
        + (StandardForm.ofWellFormed p).rows.length := by
  obtain ⟨n, q, hn, hq, hqreached, hnone, hlast⟩ := h.exists_settles hr
  have hlt := settles_lt_numBases hexact hp hr hn
  cases hlast with
  | pivot hj hi => exact absurd ⟨hj, hi⟩ (hnone _ _)
  | unlimited => simp only [report]; omega
  | remaining => simp only [report]; omega
  | turn hstop hzero hrest =>
    have hle := hrest.iterations_le_exchanging hexact hp (hqreached.turn hstop hzero)
    rw [List.length_range, hqreached.numRows_eq] at hle
    omega

/-- **A solve that ends** makes fewer pivots in each phase than there are bases, and between the
phases at most one for each row. -/
theorem EndsAt.iterations_le (h : EndsAt s (.ofWellFormed p) r status) : r.iterations
    ≤ 2 * (StandardForm.ofWellFormed p).numBases + (StandardForm.ofWellFormed p).rows.length := by
  have hstart := Passes.reached (.start : Passes s (.ofWellFormed p) _ _)
  rw [EndsAt] at h
  cases hphase : (Tableau.initial (StandardForm.ofWellFormed p)).phase with
  | one =>
    rw [hphase] at h hstart
    have hle := h.iterations_le_one hexact hp hstart
    rw [iterations_start] at hle
    omega
  | two =>
    rw [hphase] at h hstart
    have hle := h.iterations_le_two hexact hp hstart
    rw [iterations_start] at hle
    omega

/-- **No basis twice.** In a solve that ends no two runs of a phase have the same set of basic
columns. -/
theorem EndsAt.iterations_eq (h : EndsAt s (.ofWellFormed p) r' status)
    (hr : Passes s (.ofWellFormed p) (.optimizing phase) r)
    (hq : Passes s (.ofWellFormed p) (.optimizing phase) q)
    (hbasis : r.tableau.basis.toFinset = q.tableau.basis.toFinset) :
    r.iterations = q.iterations := by
  obtain ⟨last, hlast⟩ := h.exists_last phase
  obtain ⟨k, hk, hrlast⟩ := hlast hr
  obtain ⟨l, hl, hqlast⟩ := hlast hq
  have hrep := hr.represents hexact hp
  have hrep' := hq.represents hexact hp
  have hphase : r.tableau.phase = q.tableau.phase :=
    hr.reached.phase_eq.trans hq.reached.phase_eq.symm
  rw [hexact] at hk hl
  have hkl : k = l := (hk.of_similar hrep hrep' (hrep.similar hrep' hphase hbasis)).unique hl
  omega

/-! ## Solves that do not end -/

/-- **To settle or to cycle.** A phase with room for as many pivots as there are bases does one or
the other. -/
theorem Passes.settles_or_cycles (h : Passes s (.ofWellFormed p) (.optimizing phase) r)
    (hlimit : r.iterations + (StandardForm.ofWellFormed p).numBases ≤ s.maxIterations) :
    (∃ n, r.tableau.Settles (.ofWellFormed p) s.tolerance n) ∨ Cycles s (.ofWellFormed p) := by
  by_cases hsettles : ∃ n, r.tableau.Settles (.ofWellFormed p) s.tolerance n
  · exact .inl hsettles
  · have : Nonempty (Run ℚ) := ⟨r⟩
    choose! f hf hiter _ using fun k (hk : k ≤ (StandardForm.ofWellFormed p).numBases) ↦
      h.exists_of_not_settles (fun n hn ↦ hsettles ⟨n, hn⟩) (k := k) (by omega)
    obtain ⟨k, l, hkl, hl, hsim⟩ := Tableau.exists_similar (f := fun k ↦ (f k).tableau)
      (fun k hk ↦ (hf k hk).represents hexact hp) (fun k hk ↦ (hf k hk).reached.phase_eq)
      fun k hk ↦ (hf k hk).reached.numRows_eq
    refine .inr ⟨phase, f k, f l, hf k (hkl.le.trans hl), hf l hl, ?_, hsim⟩
    rw [hiter k (hkl.le.trans hl), hiter l hl]
    omega

variable (hcycle : ¬Cycles s (.ofWellFormed p))

include hcycle

theorem Passes.exists_concludes_two (h : Passes s (.ofWellFormed p) (.optimizing .two) r)
    (hlimit : r.iterations + (StandardForm.ofWellFormed p).numBases ≤ s.maxIterations) :
    ∃ r' status, Concludes s (.ofWellFormed p) (.optimizing .two) r r' status := by
  obtain ⟨n, hn⟩ := (h.settles_or_cycles hexact hp hlimit).resolve_right hcycle
  have hlt := settles_lt_numBases hexact hp h.reached hn
  refine h.exists_concludes_of_settles hn (by omega) fun {q} _ _ hnone ↦ ?_
  cases hj : q.tableau.enteringColumn (.ofWellFormed p) s.tolerance with
  | none => exact ⟨_, _, .optimal hj⟩
  | some j =>
    have hi : q.tableau.leavingRow s.tolerance j = none :=
      Option.eq_none_iff_forall_ne_some.mpr fun i hi ↦ hnone i j ⟨hj, hi⟩
    exact ⟨_, _, .unbounded hj hi⟩

theorem Passes.exists_concludes_exchanging (h : Passes s (.ofWellFormed p) (.exchanging rows) r)
    (hlimit : r.iterations + rows.length + (StandardForm.ofWellFormed p).numBases
      ≤ s.maxIterations) :
    ∃ r' status, Concludes s (.ofWellFormed p) (.exchanging rows) r r' status := by
  induction rows generalizing r with
  | nil =>
    obtain ⟨r', status, hrest⟩ := h.enterPhaseTwo.exists_concludes_two hexact hp hcycle (by
      rwa [iterations_enterPhaseTwo])
    exact ⟨r', status, .enterPhaseTwo hrest⟩
  | cons i rows ih =>
    rw [List.length_cons] at hlimit
    by_cases hart : r.tableau.basis[i]?.any (StandardForm.ofWellFormed p).isArtificial = true
    · cases hj : r.tableau.replacementColumn (.ofWellFormed p) s.tolerance i with
      | none =>
        obtain ⟨r', status, hrest⟩ := ih (h.redundant hart hj) (by simp only [report]; omega)
        exact ⟨r', status, .redundant hart hj hrest⟩
      | some j =>
        obtain ⟨r', status, hrest⟩ := ih (h.exchange hart hj (by omega))
          (by rw [iterations_pivot]; omega)
        exact ⟨r', status, .exchange hart hj hrest⟩
    · obtain ⟨r', status, hrest⟩ := ih (h.pass hart) (by omega)
      exact ⟨r', status, .pass hart hrest⟩

theorem Passes.exists_concludes_one (h : Passes s (.ofWellFormed p) (.optimizing .one) r)
    (hlimit : r.iterations + 2 * (StandardForm.ofWellFormed p).numBases
      + (StandardForm.ofWellFormed p).rows.length ≤ s.maxIterations) :
    ∃ r' status, Concludes s (.ofWellFormed p) (.optimizing .one) r r' status := by
  obtain ⟨n, hn⟩ := (h.settles_or_cycles hexact hp (by omega)).resolve_right hcycle
  have hlt := settles_lt_numBases hexact hp h.reached hn
  refine h.exists_concludes_of_settles hn (by omega) fun {q} hq hiter hnone ↦ ?_
  cases hj : q.tableau.enteringColumn (.ofWellFormed p) s.tolerance with
  | none =>
    by_cases hlarge : s.tolerance < Scalar.abs q.tableau.objectiveValue
    · exact ⟨_, _, .remaining hj hlarge⟩
    · obtain ⟨r', status, hrest⟩ :=
        (hq.turn hj hlarge).exists_concludes_exchanging hexact hp hcycle (by
          rw [List.length_range, hq.reached.numRows_eq]
          omega)
      exact ⟨r', status, .turn hj hlarge hrest⟩
  | some j =>
    have hi : q.tableau.leavingRow s.tolerance j = none :=
      Option.eq_none_iff_forall_ne_some.mpr fun i hi ↦ hnone i j ⟨hj, hi⟩
    exact ⟨_, _, .unlimited hj hi⟩

/-- **Only cycles go on for ever.** A solve that has room for the pivots of both phases and of the
exchanges, and does not cycle, ends. -/
theorem exists_endsAt (hlimit : 2 * (StandardForm.ofWellFormed p).numBases
      + (StandardForm.ofWellFormed p).rows.length ≤ s.maxIterations) :
    ∃ r status, EndsAt s (.ofWellFormed p) r status := by
  have hstart : Passes s (.ofWellFormed p) _ _ := .start
  have hiter := iterations_start s (.ofWellFormed p)
  simp only [EndsAt]
  cases hphase : (Tableau.initial (StandardForm.ofWellFormed p)).phase with
  | one =>
    rw [hphase] at hstart
    exact hstart.exists_concludes_one hexact hp hcycle (by omega)
  | two =>
    rw [hphase] at hstart
    exact hstart.exists_concludes_two hexact hp hcycle (by omega)

end Exact

end Run

end LinearProgramming
