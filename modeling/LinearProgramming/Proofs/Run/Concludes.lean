import LinearProgramming.Proofs.Run.Reached

/-!
# Where a solve ends when nothing stops it

The tableau, the number of pivots and the stage of a solve settle how it goes on, and the pivot
limit can only cut it short. `Run.Concludes` is the solve without its limit: it relates a run to the
one the solve ends at, with as many pivots as that takes. A solve that pivots for ever concludes
nowhere.

A solve with a limit ends exactly where it concludes, provided that the pivots made by then are
within the limit, and is stopped otherwise. So whatever depends on the limit alone is read off the
pivots of the run at which the solve concludes.

Keeping a trace plays no part in any choice. Runs that differ in the tableaus they keep conclude at
runs that differ in these and in nothing else.
-/

namespace LinearProgramming

variable {α : Type} [Scalar α]

namespace Run

/-- That a solve which stands at one run ends at another with a status, if no limit stops it. -/
inductive Concludes (s : Settings α) (form : StandardForm α) :
    Stage → Run α → Run α → Status → Prop
  | optimal {r : Run α} (hstop : r.tableau.enteringColumn form s.tolerance = none) :
      Concludes s form (.optimizing .two) r r .optimal
  | unbounded {r : Run α} {j : ℕ} (hj : r.tableau.enteringColumn form s.tolerance = some j)
      (hi : r.tableau.leavingRow s.tolerance j = none) :
      Concludes s form (.optimizing .two) r r .unbounded
  /-- Phase one found a column that no row limits. -/
  | unlimited {r : Run α} {j : ℕ} (hj : r.tableau.enteringColumn form s.tolerance = some j)
      (hi : r.tableau.leavingRow s.tolerance j = none) :
      Concludes s form (.optimizing .one) r (r.report (.phaseOneUnbounded j)) .infeasible
  /-- Phase one ended with artificial variables that do not sum to zero. -/
  | remaining {r : Run α} (hstop : r.tableau.enteringColumn form s.tolerance = none)
      (hlarge : s.tolerance < Scalar.abs r.tableau.objectiveValue) :
      Concludes s form (.optimizing .one) r
        (r.report (.artificialsRemain (-r.tableau.objectiveValue))) .infeasible
  | pivot {phase : Phase} {r r' : Run α} {status : Status} {i j : ℕ}
      (hj : r.tableau.enteringColumn form s.tolerance = some j)
      (hi : r.tableau.leavingRow s.tolerance j = some i)
      (h : Concludes s form (.optimizing phase) (r.pivot s i j) r' status) :
      Concludes s form (.optimizing phase) r r' status
  | turn {r r' : Run α} {status : Status}
      (hstop : r.tableau.enteringColumn form s.tolerance = none)
      (hzero : ¬s.tolerance < Scalar.abs r.tableau.objectiveValue)
      (h : Concludes s form (.exchanging (List.range r.tableau.numRows)) r r' status) :
      Concludes s form (.optimizing .one) r r' status
  /-- A row whose basic variable is genuine. -/
  | pass {r r' : Run α} {status : Status} {i : ℕ} {rows : List ℕ}
      (hkeep : ¬r.tableau.basis[i]?.any form.isArtificial = true)
      (h : Concludes s form (.exchanging rows) r r' status) :
      Concludes s form (.exchanging (i :: rows)) r r' status
  /-- A row whose artificial variable cannot be replaced. -/
  | redundant {r r' : Run α} {status : Status} {i : ℕ} {rows : List ℕ}
      (hart : r.tableau.basis[i]?.any form.isArtificial = true)
      (hnone : r.tableau.replacementColumn form s.tolerance i = none)
      (h : Concludes s form (.exchanging rows) (r.report (.rowRedundant i)) r' status) :
      Concludes s form (.exchanging (i :: rows)) r r' status
  | exchange {r r' : Run α} {status : Status} {i j : ℕ} {rows : List ℕ}
      (hart : r.tableau.basis[i]?.any form.isArtificial = true)
      (hj : r.tableau.replacementColumn form s.tolerance i = some j)
      (h : Concludes s form (.exchanging rows) (r.pivot s i j) r' status) :
      Concludes s form (.exchanging (i :: rows)) r r' status
  | enterPhaseTwo {r r' : Run α} {status : Status}
      (h : Concludes s form (.optimizing .two) (r.enterPhaseTwo s form) r' status) :
      Concludes s form (.exchanging []) r r' status

variable {s : Settings α} {form : StandardForm α} {stage : Stage} {phase : Phase}
  {r r' q : Run α} {status : Status} {i j : ℕ} {rows : List ℕ}

@[simp] theorem iterations_start (s : Settings α) (form : StandardForm α) :
    (start s form).iterations = 0 := by
  rw [start, record]
  split_ifs <;> rfl

@[simp] theorem iterations_enterPhaseTwo (s : Settings α) (form : StandardForm α) (r : Run α) :
    (r.enterPhaseTwo s form).iterations = r.iterations := by
  rw [enterPhaseTwo, record]
  split_ifs <;> rfl

theorem Concludes.iterations_le (h : Concludes s form stage r r' status) :
    r.iterations ≤ r'.iterations := by
  induction h with
  | optimal => exact Nat.le_refl _
  | unbounded => exact Nat.le_refl _
  | unlimited => exact Nat.le_refl _
  | remaining => exact Nat.le_refl _
  | pivot _ _ _ ih =>
    rw [iterations_pivot] at ih
    exact Nat.le_trans (Nat.le_succ _) ih
  | turn _ _ _ ih => exact ih
  | pass _ _ ih => exact ih
  | redundant _ _ _ ih => exact ih
  | exchange _ _ _ ih =>
    rw [iterations_pivot] at ih
    exact Nat.le_trans (Nat.le_succ _) ih
  | enterPhaseTwo _ ih => rwa [iterations_enterPhaseTwo] at ih

/-- That the solve of a standard form, left alone, ends at a run with a status. -/
def EndsAt (s : Settings α) (form : StandardForm α) (r : Run α) (status : Status) : Prop :=
  Concludes s form (.optimizing (Tableau.initial form).phase) (start s form) r status

/-- **Every run leads to the same end.** Where a solve concludes is where each of the runs it goes
through concludes, since no choice is left open. -/
theorem Passes.concludes (h : Passes s form stage r) (hends : EndsAt s form r' status) :
    Concludes s form stage r r' status := by
  induction h with
  | start => exact hends
  | pivot _ hj hi _ ih =>
    cases ih with
    | pivot hj' hi' hrest =>
      obtain rfl := Option.some_inj.mp (hj.symm.trans hj')
      obtain rfl := Option.some_inj.mp (hi.symm.trans hi')
      exact hrest
    | _ => simp_all
  | turn _ hstop hzero ih =>
    cases ih with
    | turn _ _ hrest => exact hrest
    | _ => simp_all
  | pass _ hkeep ih =>
    cases ih with
    | pass _ hrest => exact hrest
    | redundant hart => exact absurd hart hkeep
    | exchange hart => exact absurd hart hkeep
  | redundant _ hart hnone ih =>
    cases ih with
    | redundant _ _ hrest => exact hrest
    | pass hkeep => exact absurd hart hkeep
    | exchange _ hj => rw [hnone] at hj; cases hj
  | exchange _ hart hj _ ih =>
    cases ih with
    | exchange _ hj' hrest =>
      obtain rfl := Option.some_inj.mp (hj.symm.trans hj')
      exact hrest
    | pass hkeep => exact absurd hart hkeep
    | redundant _ hnone => rw [hnone] at hj; cases hj
  | enterPhaseTwo _ ih =>
    cases ih with
    | enterPhaseTwo hrest => exact hrest

/-! ## The rest of a solve -/

/-- What a solve that stands at a run still does, as far as the limit lets it. -/
def resume (s : Settings α) (form : StandardForm α) :
    Stage → Run α → Except (Run α) (Run α × Status)
  | .optimizing .one, r => r.phaseOne s form
  | .optimizing .two, r => r.phaseTwo s form
  | .exchanging rows, r =>
    match driveOutOf s form rows r with
    | .error r => .error r
    | .ok r => (r.enterPhaseTwo s form).phaseTwo s form

theorem phases_start (s : Settings α) (form : StandardForm α) :
    (start s form).phases s form
      = resume s form (.optimizing (Tableau.initial form).phase) (start s form) := by
  rw [phases, tableau_start]
  cases (Tableau.initial form).phase <;> rfl

section Optimize

theorem optimize_of_noEntering (hstop : r.tableau.enteringColumn form s.tolerance = none) :
    r.optimize s form = .ok (r, .noEntering) := by
  rw [optimize, optimizeWithin.eq_def, hstop]

theorem optimize_of_noLeaving (hj : r.tableau.enteringColumn form s.tolerance = some j)
    (hi : r.tableau.leavingRow s.tolerance j = none) :
    r.optimize s form = .ok (r, .noLeaving j) := by
  rw [optimize, optimizeWithin.eq_def, hj]
  simp only [hi]

/-- **Below the limit** a pivot that is due is made. -/
theorem optimize_of_lt (hj : r.tableau.enteringColumn form s.tolerance = some j)
    (hi : r.tableau.leavingRow s.tolerance j = some i) (hlt : r.iterations < s.maxIterations) :
    r.optimize s form = (r.pivot s i j).optimize s form := by
  obtain ⟨budget, hbudget⟩ : ∃ budget, s.maxIterations - r.iterations = budget + 1 :=
    ⟨s.maxIterations - r.iterations - 1, by omega⟩
  have hnext : s.maxIterations - (r.pivot s i j).iterations = budget := by
    rw [iterations_pivot]
    omega
  rw [optimize, optimize, hnext, hbudget, optimizeWithin.eq_def, hj]
  simp only [hi]

/-- **At the limit** a pivot that is due stops the solve. -/
theorem optimize_of_le (hj : r.tableau.enteringColumn form s.tolerance = some j)
    (hi : r.tableau.leavingRow s.tolerance j = some i) (hle : s.maxIterations ≤ r.iterations) :
    r.optimize s form = .error r := by
  rw [optimize, Nat.sub_eq_zero_of_le hle, optimizeWithin.eq_def, hj]
  simp only [hi]

end Optimize

theorem resume_pivot (phase : Phase) (hj : r.tableau.enteringColumn form s.tolerance = some j)
    (hi : r.tableau.leavingRow s.tolerance j = some i) (hlt : r.iterations < s.maxIterations) :
    resume s form (.optimizing phase) r = resume s form (.optimizing phase) (r.pivot s i j) := by
  cases phase with
  | one => rw [resume, resume, phaseOne, phaseOne, optimize_of_lt hj hi hlt]
  | two => rw [resume, resume, phaseTwo, phaseTwo, optimize_of_lt hj hi hlt]

theorem resume_of_le (phase : Phase) (hj : r.tableau.enteringColumn form s.tolerance = some j)
    (hi : r.tableau.leavingRow s.tolerance j = some i) (hle : s.maxIterations ≤ r.iterations) :
    resume s form (.optimizing phase) r = .error r := by
  cases phase with
  | one => rw [resume, phaseOne, optimize_of_le hj hi hle]
  | two => rw [resume, phaseTwo, optimize_of_le hj hi hle]

theorem resume_turn (hstop : r.tableau.enteringColumn form s.tolerance = none)
    (hzero : ¬s.tolerance < Scalar.abs r.tableau.objectiveValue) :
    resume s form (.optimizing .one) r
      = resume s form (.exchanging (List.range r.tableau.numRows)) r := by
  rw [resume, phaseOne, optimize_of_noEntering hstop]
  simp only [if_neg hzero]
  rfl

theorem resume_pass (hkeep : ¬r.tableau.basis[i]?.any form.isArtificial = true) :
    resume s form (.exchanging (i :: rows)) r = resume s form (.exchanging rows) r := by
  rw [resume, resume, driveOutOf, if_neg hkeep]

theorem resume_redundant (hart : r.tableau.basis[i]?.any form.isArtificial = true)
    (hnone : r.tableau.replacementColumn form s.tolerance i = none) :
    resume s form (.exchanging (i :: rows)) r
      = resume s form (.exchanging rows) (r.report (.rowRedundant i)) := by
  rw [resume, resume, driveOutOf, if_pos hart, hnone]

theorem resume_exchange (hart : r.tableau.basis[i]?.any form.isArtificial = true)
    (hj : r.tableau.replacementColumn form s.tolerance i = some j) :
    resume s form (.exchanging (i :: rows)) r
      = if r.iterations < s.maxIterations then resume s form (.exchanging rows) (r.pivot s i j)
        else .error r := by
  rw [resume, driveOutOf, if_pos hart, hj]
  split_ifs <;> rfl

theorem Concludes.lt_of_pivot (h : Concludes s form stage (r.pivot s i j) r' status)
    (hlimit : r'.iterations ≤ s.maxIterations) : r.iterations < s.maxIterations := by
  have hle := h.iterations_le
  rw [iterations_pivot] at hle
  exact Nat.lt_of_succ_le (Nat.le_trans hle hlimit)

/-- What a solve makes of the run at which no step is due any more. -/
inductive Closes (s : Settings α) (form : StandardForm α) :
    Stage → Run α → Run α → Status → Prop
  | optimal {r : Run α} (hstop : r.tableau.enteringColumn form s.tolerance = none) :
      Closes s form (.optimizing .two) r r .optimal
  | unbounded {r : Run α} {j : ℕ} (hj : r.tableau.enteringColumn form s.tolerance = some j)
      (hi : r.tableau.leavingRow s.tolerance j = none) :
      Closes s form (.optimizing .two) r r .unbounded
  | unlimited {r : Run α} {j : ℕ} (hj : r.tableau.enteringColumn form s.tolerance = some j)
      (hi : r.tableau.leavingRow s.tolerance j = none) :
      Closes s form (.optimizing .one) r (r.report (.phaseOneUnbounded j)) .infeasible
  | remaining {r : Run α} (hstop : r.tableau.enteringColumn form s.tolerance = none)
      (hlarge : s.tolerance < Scalar.abs r.tableau.objectiveValue) :
      Closes s form (.optimizing .one) r
        (r.report (.artificialsRemain (-r.tableau.objectiveValue))) .infeasible

/-- **The last run on the way.** Within the limit a solve that concludes goes on to a run at which
no step is due, and concludes with what it makes of that. -/
theorem Concludes.exists_closes (h : Concludes s form stage r r' status)
    (hr : Passes s form stage r) (hlimit : r'.iterations ≤ s.maxIterations) :
    ∃ stage' q, Passes s form stage' q ∧ Closes s form stage' q r' status := by
  induction h with
  | optimal hstop => exact ⟨_, _, hr, .optimal hstop⟩
  | unbounded hj hi => exact ⟨_, _, hr, .unbounded hj hi⟩
  | unlimited hj hi => exact ⟨_, _, hr, .unlimited hj hi⟩
  | remaining hstop hlarge => exact ⟨_, _, hr, .remaining hstop hlarge⟩
  | pivot hj hi h ih => exact ih (hr.pivot hj hi (h.lt_of_pivot hlimit)) hlimit
  | turn hstop hzero _ ih => exact ih (hr.turn hstop hzero) hlimit
  | pass hkeep _ ih => exact ih (hr.pass hkeep) hlimit
  | redundant hart hnone _ ih => exact ih (hr.redundant hart hnone) hlimit
  | exchange hart hj h ih => exact ih (hr.exchange hart hj (h.lt_of_pivot hlimit)) hlimit
  | enterPhaseTwo _ ih => exact ih hr.enterPhaseTwo hlimit

/-- **Within the limit** a solve ends where it concludes. -/
theorem Concludes.resume_eq (h : Concludes s form stage r r' status)
    (hlimit : r'.iterations ≤ s.maxIterations) : resume s form stage r = .ok (r', status) := by
  induction h with
  | optimal hstop => rw [resume, phaseTwo, optimize_of_noEntering hstop]
  | unbounded hj hi => rw [resume, phaseTwo, optimize_of_noLeaving hj hi]
  | unlimited hj hi => rw [resume, phaseOne, optimize_of_noLeaving hj hi]
  | remaining hstop hlarge =>
    rw [resume, phaseOne, optimize_of_noEntering hstop]
    exact if_pos hlarge
  | pivot hj hi h ih => rw [resume_pivot _ hj hi (h.lt_of_pivot hlimit), ih hlimit]
  | turn hstop hzero _ ih => rw [resume_turn hstop hzero, ih hlimit]
  | pass hkeep _ ih => rw [resume_pass hkeep, ih hlimit]
  | redundant hart hnone _ ih => rw [resume_redundant hart hnone, ih hlimit]
  | exchange hart hj h ih => rw [resume_exchange hart hj, if_pos (h.lt_of_pivot hlimit), ih hlimit]
  | enterPhaseTwo _ ih => exact ih hlimit

/-- That a solve which stands at a run and hands one back concludes there, within the limit. -/
def EndsWithin (s : Settings α) (form : StandardForm α) (stage : Stage) (r : Run α) : Prop :=
  ∀ r' status, resume s form stage r = .ok (r', status) →
    Concludes s form stage r r' status ∧ r'.iterations ≤ s.maxIterations

/-- A phase is over where no pivot is due, and any other run of it has one pivot less to go. -/
private theorem endsWithin_optimizing (hr : r.iterations ≤ s.maxIterations)
    (hlast : ∀ {q : Run α}, q.iterations ≤ s.maxIterations →
      (∀ j, q.tableau.enteringColumn form s.tolerance = some j →
        q.tableau.leavingRow s.tolerance j = none) → EndsWithin s form (.optimizing phase) q) :
    EndsWithin s form (.optimizing phase) r := by
  induction hbudget : s.maxIterations - r.iterations using Nat.strongRecOn generalizing r with
  | ind budget ih =>
    by_cases hdue : ∃ i j, r.tableau.enteringColumn form s.tolerance = some j
        ∧ r.tableau.leavingRow s.tolerance j = some i
    · obtain ⟨i, j, hj, hi⟩ := hdue
      intro r' status h
      rcases Nat.lt_or_ge r.iterations s.maxIterations with hlt | hge
      · rw [resume_pivot phase hj hi hlt] at h
        obtain ⟨hrest, hle⟩ := ih _ (by rw [iterations_pivot]; omega)
          (by rw [iterations_pivot]; exact hlt) rfl _ _ h
        exact ⟨.pivot hj hi hrest, hle⟩
      · rw [resume_of_le phase hj hi hge] at h
        cases h
    · refine hlast hr fun j hj ↦ Option.eq_none_iff_forall_ne_some.mpr fun i hi ↦ ?_
      exact hdue ⟨i, j, hj, hi⟩

private theorem endsWithin_phaseTwo (hr : r.iterations ≤ s.maxIterations) :
    EndsWithin s form (.optimizing .two) r := by
  refine endsWithin_optimizing hr fun {q} hq hlast r' status h ↦ ?_
  rw [resume, phaseTwo] at h
  cases hj : q.tableau.enteringColumn form s.tolerance with
  | none =>
    rw [optimize_of_noEntering hj] at h
    cases h
    exact ⟨.optimal hj, hq⟩
  | some j =>
    rw [optimize_of_noLeaving hj (hlast j hj)] at h
    cases h
    exact ⟨.unbounded hj (hlast j hj), hq⟩

private theorem endsWithin_exchanging (hr : r.iterations ≤ s.maxIterations) :
    EndsWithin s form (.exchanging rows) r := by
  induction rows generalizing r with
  | nil =>
    intro r' status h
    obtain ⟨hrest, hle⟩ := endsWithin_phaseTwo (r := r.enterPhaseTwo s form)
      (by rwa [iterations_enterPhaseTwo]) _ _ h
    exact ⟨.enterPhaseTwo hrest, hle⟩
  | cons i rows ih =>
    intro r' status h
    by_cases hart : r.tableau.basis[i]?.any form.isArtificial = true
    · cases hj : r.tableau.replacementColumn form s.tolerance i with
      | none =>
        rw [resume_redundant hart hj] at h
        obtain ⟨hrest, hle⟩ := ih (r := r.report (.rowRedundant i)) hr _ _ h
        exact ⟨.redundant hart hj hrest, hle⟩
      | some j =>
        rw [resume_exchange hart hj] at h
        split_ifs at h with hlt
        obtain ⟨hrest, hle⟩ := ih (by rw [iterations_pivot]; exact hlt) _ _ h
        exact ⟨.exchange hart hj hrest, hle⟩
    · rw [resume_pass hart] at h
      obtain ⟨hrest, hle⟩ := ih hr _ _ h
      exact ⟨.pass hart hrest, hle⟩

private theorem endsWithin_phaseOne (hr : r.iterations ≤ s.maxIterations) :
    EndsWithin s form (.optimizing .one) r := by
  refine endsWithin_optimizing hr fun {q} hq hlast r' status h ↦ ?_
  cases hj : q.tableau.enteringColumn form s.tolerance with
  | none =>
    by_cases hlarge : s.tolerance < Scalar.abs q.tableau.objectiveValue
    · rw [resume, phaseOne, optimize_of_noEntering hj] at h
      simp only [if_pos hlarge] at h
      cases h
      exact ⟨.remaining hj hlarge, hq⟩
    · rw [resume_turn hj hlarge] at h
      obtain ⟨hrest, hle⟩ := endsWithin_exchanging hq _ _ h
      exact ⟨.turn hj hlarge hrest, hle⟩
  | some j =>
    rw [resume, phaseOne, optimize_of_noLeaving hj (hlast j hj)] at h
    cases h
    exact ⟨.unlimited hj (hlast j hj), hq⟩

/-- **A limited solve** hands back a run exactly if it is the one the solve concludes at and the
pivots made by then are within the limit. -/
theorem resume_eq_ok_iff (hr : r.iterations ≤ s.maxIterations) :
    resume s form stage r = .ok (r', status)
      ↔ Concludes s form stage r r' status ∧ r'.iterations ≤ s.maxIterations := by
  constructor
  · intro h
    match stage with
    | .optimizing .one => exact endsWithin_phaseOne hr _ _ h
    | .optimizing .two => exact endsWithin_phaseTwo hr _ _ h
    | .exchanging rows => exact endsWithin_exchanging hr _ _ h
  · rintro ⟨h, hlimit⟩
    exact h.resume_eq hlimit

/-! ## Other settings -/

theorem Concludes.of_limit (h : Concludes s form stage r r' status) (limit : ℕ) :
    Concludes { s with maxIterations := limit } form stage r r' status := by
  induction h with
  | optimal hstop => exact .optimal hstop
  | unbounded hj hi => exact .unbounded hj hi
  | unlimited hj hi => exact .unlimited hj hi
  | remaining hstop hlarge => exact .remaining hstop hlarge
  | pivot hj hi _ ih => exact .pivot hj hi ih
  | turn hstop hzero _ ih => exact .turn hstop hzero ih
  | pass hkeep _ ih => exact .pass hkeep ih
  | redundant hart hnone _ ih => exact .redundant hart hnone ih
  | exchange hart hj _ ih => exact .exchange hart hj ih
  | enterPhaseTwo _ ih => exact .enterPhaseTwo ih

/-- That two runs have come to the same tableau with as many pivots, whatever they have kept. -/
structure Agrees (r q : Run α) : Prop where
  tableau_eq : r.tableau = q.tableau
  iterations_eq : r.iterations = q.iterations

theorem Agrees.pivot (h : Agrees r q) (trace : Bool) (i j : ℕ) :
    Agrees (r.pivot s i j) (q.pivot { s with trace := trace } i j) where
  tableau_eq := by rw [tableau_pivot, tableau_pivot, h.tableau_eq]
  iterations_eq := by rw [iterations_pivot, iterations_pivot, h.iterations_eq]

theorem Agrees.enterPhaseTwo (h : Agrees r q) (trace : Bool) :
    Agrees (r.enterPhaseTwo s form) (q.enterPhaseTwo { s with trace := trace } form) where
  tableau_eq := by rw [tableau_enterPhaseTwo, tableau_enterPhaseTwo, h.tableau_eq]
  iterations_eq := by rw [iterations_enterPhaseTwo, iterations_enterPhaseTwo, h.iterations_eq]

/-- **Keeping a trace changes nothing.** A run that agrees with another one concludes where that one
does, but for what is kept on the way. -/
theorem Concludes.of_trace (h : Concludes s form stage r r' status) (trace : Bool)
    (hq : Agrees r q) :
    ∃ q', Concludes { s with trace := trace } form stage q q' status ∧ Agrees r' q' := by
  induction h generalizing q with
  | optimal hstop => exact ⟨_, .optimal (hq.tableau_eq ▸ hstop), hq⟩
  | unbounded hj hi =>
    rw [hq.tableau_eq] at hj hi
    exact ⟨_, .unbounded hj hi, hq⟩
  | unlimited hj hi =>
    rw [hq.tableau_eq] at hj hi
    exact ⟨_, .unlimited hj hi, hq.tableau_eq, hq.iterations_eq⟩
  | remaining hstop hlarge =>
    rw [hq.tableau_eq] at hstop hlarge
    exact ⟨_, .remaining hstop hlarge, hq.tableau_eq, hq.iterations_eq⟩
  | pivot hj hi _ ih =>
    rw [hq.tableau_eq] at hj hi
    obtain ⟨q', hrest, hq'⟩ := ih (hq.pivot trace _ _)
    exact ⟨q', .pivot hj hi hrest, hq'⟩
  | turn hstop hzero _ ih =>
    rw [hq.tableau_eq] at hstop hzero ih
    obtain ⟨q', hrest, hq'⟩ := ih hq
    exact ⟨q', .turn hstop hzero hrest, hq'⟩
  | pass hkeep _ ih =>
    rw [hq.tableau_eq] at hkeep
    obtain ⟨q', hrest, hq'⟩ := ih hq
    exact ⟨q', .pass hkeep hrest, hq'⟩
  | @redundant r _ _ i _ hart hnone _ ih =>
    rw [hq.tableau_eq] at hart hnone
    obtain ⟨q', hrest, hq'⟩ :=
      ih (q := q.report (.rowRedundant i)) ⟨hq.tableau_eq, hq.iterations_eq⟩
    exact ⟨q', .redundant hart hnone hrest, hq'⟩
  | exchange hart hj _ ih =>
    rw [hq.tableau_eq] at hart hj
    obtain ⟨q', hrest, hq'⟩ := ih (hq.pivot trace _ _)
    exact ⟨q', .exchange hart hj hrest, hq'⟩
  | enterPhaseTwo _ ih =>
    obtain ⟨q', hrest, hq'⟩ := ih (hq.enterPhaseTwo trace)
    exact ⟨q', .enterPhaseTwo hrest, hq'⟩

theorem agrees_start (s : Settings α) (form : StandardForm α) (trace : Bool) :
    Agrees (start s form) (start { s with trace := trace } form) where
  tableau_eq := by rw [tableau_start, tableau_start]
  iterations_eq := by rw [iterations_start, iterations_start]

end Run

end LinearProgramming
