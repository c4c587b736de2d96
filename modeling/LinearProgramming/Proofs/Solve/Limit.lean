import LinearProgramming.Proofs.Run.Concludes
import LinearProgramming.Proofs.Solve.Trail

/-!
# The pivot limit

Whatever the arithmetic, a solve that ends within its limit ends in the same way within any limit
that its pivots fit, and fails with every smaller one. A solve that fails has met its own limit and
would meet a smaller one too. So a problem has one number of pivots, or none that is enough.

The pivots of all parts of a solve count alike: those of the two phases and the exchanges between
them. All that is used of this is that a run counts each of its pivots and that the count is looked
at before each of them, see `Run.resume_eq_ok_iff`.

Asking for a trace neither spends pivots nor changes any: but for the trace itself the answer stays
as it is, also where it is that the limit has been reached.
-/

namespace LinearProgramming

variable {α : Type} [Scalar α]

/-- The solution without the tableaus that were kept. -/
def Solution.untraced (sol : Solution α) : Solution α := { sol with trace := none }

namespace Run

variable {s : Settings α} {p : Problem α} {form : StandardForm α} {r q : Run α} {status : Status}

theorem EndsAt.of_limit (h : EndsAt s form r status) (limit : ℕ) :
    EndsAt { s with maxIterations := limit } form r status := Concludes.of_limit h limit

theorem complete_eq_ok_iff : complete s form = .ok (r, status)
    ↔ ∃ q, EndsAt s form q status ∧ q.iterations ≤ s.maxIterations
      ∧ r = q.report (.finished status q.iterations) := by
  have hstart : (start s form).iterations ≤ s.maxIterations := by
    rw [iterations_start]
    exact Nat.zero_le _
  rw [complete, phases_start]
  constructor
  · intro h
    split at h
    · cases h
    · rename_i q status' hq
      cases h
      obtain ⟨hends, hle⟩ := (resume_eq_ok_iff hstart).mp hq
      exact ⟨q, hends, hle, rfl⟩
  · rintro ⟨q, hends, hle, rfl⟩
    rw [(resume_eq_ok_iff hstart).mpr ⟨hends, hle⟩]

theorem iterations_toSolution (r : Run α) :
    (r.toSolution s p form status).iterations = r.iterations := by
  unfold toSolution
  cases status <;> split_ifs <;> rfl

theorem Agrees.untraced_toSolution (h : Agrees r q) (trace : Bool) :
    (q.toSolution { s with trace := trace } p form status).untraced
      = (r.toSolution s p form status).untraced := by
  unfold toSolution
  rw [h.tableau_eq, h.iterations_eq]
  cases status <;> split_ifs <;> rfl

end Run

section

variable {s : Settings α} {p : Problem α} {sol : Solution α}

theorem solve_of_malformed {fault : Malformed} (h : p.validate = .error fault) :
    solve s p = .error (.malformed fault) := by
  rw [solve, solveWithEvents, StandardForm.ofProblem, h]

theorem solve_of_wellFormed (h : p.WellFormed) :
    solve s p = match Run.complete s (.ofWellFormed p) with
      | .error _ => .error (.iterationLimit s.maxIterations)
      | .ok (r, status) => .ok (r.toSolution s p (.ofWellFormed p) status) := by
  have hform : StandardForm.ofProblem p = .ok (.ofWellFormed p) := by
    rw [StandardForm.ofProblem, h]
  rw [solve, solveWithEvents, hform]
  simp only
  cases Run.complete s (.ofWellFormed p) <;> rfl

theorem solve_eq_malformed_iff {fault : Malformed} :
    solve s p = .error (.malformed fault) ↔ p.validate = .error fault := by
  cases hvalid : p.validate with
  | error found =>
    rw [solve_of_malformed hvalid]
    simp only [Except.error.injEq, SolveFault.malformed.injEq]
  | ok =>
    refine iff_of_false (fun h ↦ ?_) nofun
    rw [solve_of_wellFormed hvalid] at h
    split at h <;> cases h

/-- **A solution is handed back** exactly for the run at which the solve ends, if its pivots are
within the limit. -/
theorem solve_eq_ok_iff (hp : p.WellFormed) : solve s p = .ok sol
    ↔ ∃ r status, Run.EndsAt s (.ofWellFormed p) r status ∧ r.iterations ≤ s.maxIterations
      ∧ sol = r.toSolution s p (.ofWellFormed p) status := by
  rw [solve_of_wellFormed hp]
  constructor
  · intro h
    split at h
    · cases h
    · rename_i r status hrun
      cases h
      obtain ⟨q, hends, hle, rfl⟩ := Run.complete_eq_ok_iff.mp hrun
      exact ⟨q, status, hends, hle, rfl⟩
  · rintro ⟨q, status, hends, hle, rfl⟩
    rw [Run.complete_eq_ok_iff.mpr ⟨q, hends, hle, rfl⟩]
    rfl

theorem solve_eq_error_iff (hp : p.WellFormed) :
    solve s p = .error (.iterationLimit s.maxIterations) ↔ ∀ sol, solve s p ≠ .ok sol := by
  constructor
  · intro h sol hsol
    rw [h] at hsol
    cases hsol
  · intro h
    rw [solve_of_wellFormed hp] at h ⊢
    cases hrun : Run.complete s (.ofWellFormed p) with
    | error r => rfl
    | ok result =>
      rw [hrun] at h
      exact absurd rfl (h _)

theorem wellFormed_of_solve_ne {fault : SolveFault} (h : ∀ malformed, fault ≠ .malformed malformed)
    (hsolve : solve s p = .error fault) : p.WellFormed := by
  cases hvalid : p.validate with
  | ok _ => exact hvalid
  | error malformed =>
    rw [solve_of_malformed hvalid] at hsolve
    cases hsolve
    exact absurd rfl (h malformed)

theorem limit_eq_of_solve {limit : ℕ} (h : solve s p = .error (.iterationLimit limit)) :
    p.WellFormed ∧ limit = s.maxIterations ∧ ∀ sol, solve s p ≠ .ok sol := by
  have hp : p.WellFormed := wellFormed_of_solve_ne (fun _ hne ↦ by cases hne) h
  have hnone : ∀ sol, solve s p ≠ .ok sol := fun sol hsol ↦ by
    rw [h] at hsol
    cases hsol
  rw [(solve_eq_error_iff hp).mpr hnone] at h
  cases h
  exact ⟨hp, rfl, hnone⟩

theorem solve_limit_of_le (h : solve s p = .ok sol) {limit : ℕ} (hle : sol.iterations ≤ limit) :
    solve { s with maxIterations := limit } p = .ok sol := by
  have hp : p.WellFormed := (exists_finished_of_solve h).1
  obtain ⟨r, status, hends, -, rfl⟩ := (solve_eq_ok_iff hp).mp h
  rw [Run.iterations_toSolution] at hle
  exact (solve_eq_ok_iff hp).mpr ⟨r, status, hends.of_limit limit, hle, rfl⟩

theorem iterations_le_of_solve (h : solve s p = .ok sol) : sol.iterations ≤ s.maxIterations := by
  have hp : p.WellFormed := (exists_finished_of_solve h).1
  obtain ⟨r, status, -, hle, rfl⟩ := (solve_eq_ok_iff hp).mp h
  rwa [Run.iterations_toSolution]

theorem solve_limit_eq_error (hp : p.WellFormed) {limit : ℕ}
    (h : ∀ sol, solve s p = .ok sol → limit < sol.iterations)
    (hlimit : limit ≤ s.maxIterations) :
    solve { s with maxIterations := limit } p = .error (.iterationLimit limit) := by
  refine (solve_eq_error_iff (s := { s with maxIterations := limit }) hp).mpr fun sol hsol ↦ ?_
  have hfits : sol.iterations ≤ limit := iterations_le_of_solve hsol
  have hsame : solve s p = .ok sol := solve_limit_of_le hsol (hfits.trans hlimit)
  exact absurd hfits (not_le.mpr (h sol hsame))

theorem exists_solve_trace (h : solve s p = .ok sol) (trace : Bool) :
    ∃ sol', solve { s with trace := trace } p = .ok sol' ∧ sol'.untraced = sol.untraced := by
  have hp : p.WellFormed := (exists_finished_of_solve h).1
  obtain ⟨r, status, hends, hle, rfl⟩ := (solve_eq_ok_iff hp).mp h
  obtain ⟨q, hends', hagrees⟩ := hends.of_trace trace (Run.agrees_start s _ trace)
  exact ⟨_, (solve_eq_ok_iff hp).mpr ⟨q, status, hends', hagrees.iterations_eq ▸ hle, rfl⟩,
    hagrees.untraced_toSolution trace⟩

theorem solve_trace (s : Settings α) (p : Problem α) (trace : Bool) :
    (solve { s with trace := trace } p).map Solution.untraced
      = (solve s p).map Solution.untraced := by
  cases hvalid : p.validate with
  | error fault => rw [solve_of_malformed hvalid, solve_of_malformed hvalid]
  | ok _ =>
    have hp : p.WellFormed := hvalid
    by_cases hsol : ∃ sol, solve s p = .ok sol
    · obtain ⟨sol, hsol⟩ := hsol
      obtain ⟨sol', hsol', huntraced⟩ := exists_solve_trace hsol trace
      rw [hsol, hsol']
      exact congrArg Except.ok huntraced
    · -- A solution with the other setting would be one with this setting too.
      have hstopped : solve s p = .error (.iterationLimit s.maxIterations) :=
        (solve_eq_error_iff hp).mpr fun sol h ↦ hsol ⟨sol, h⟩
      have hstopped' : solve { s with trace := trace } p
          = .error (.iterationLimit s.maxIterations) := by
        refine (solve_eq_error_iff (s := { s with trace := trace }) hp).mpr fun sol h ↦ ?_
        obtain ⟨sol', h', -⟩ := exists_solve_trace h s.trace
        exact hsol ⟨sol', h'⟩
      rw [hstopped, hstopped']

/-- **The limit is one of pivots.** A solution fits the limit it was found within. Within any other
limit that its pivots fit it is found again, and within any smaller one the solve fails and names
that limit. A solve that fails at a limit fails at every smaller one. A trace that is kept or not
makes no difference but for the trace. -/
theorem solve_of_limit (s : Settings α) (p : Problem α) :
    (∀ sol, solve s p = .ok sol → sol.iterations ≤ s.maxIterations
      ∧ (∀ limit, sol.iterations ≤ limit → solve { s with maxIterations := limit } p = .ok sol)
      ∧ ∀ limit, limit < sol.iterations →
        solve { s with maxIterations := limit } p = .error (.iterationLimit limit))
    ∧ (∀ limit, solve s p = .error (.iterationLimit limit) → limit = s.maxIterations
      ∧ ∀ lower, lower < limit →
        solve { s with maxIterations := lower } p = .error (.iterationLimit lower))
    ∧ ∀ trace, (solve { s with trace := trace } p).map Solution.untraced
      = (solve s p).map Solution.untraced := by
  refine ⟨fun sol h ↦ ⟨iterations_le_of_solve h, fun limit ↦ solve_limit_of_le h,
    fun limit hlt ↦ ?_⟩, fun limit h ↦ ?_, solve_trace s p⟩
  · refine solve_limit_eq_error (exists_finished_of_solve h).1 (fun sol' h' ↦ ?_)
      (hlt.le.trans (iterations_le_of_solve h))
    rw [h] at h'
    cases h'
    exact hlt
  · obtain ⟨hp, rfl, hnone⟩ := limit_eq_of_solve h
    exact ⟨rfl, fun lower hlt ↦
      solve_limit_eq_error hp (fun sol hsol ↦ absurd hsol (hnone sol)) hlt.le⟩

/-- Four pivots, of which the second is an exchange. -/
theorem solve_of_limit_pinned : ∃ sol, solve .zeroTolerance pinned = .ok sol ∧ sol.iterations = 4
    ∧ solve { Settings.zeroTolerance with maxIterations := 4 } pinned = .ok sol
    ∧ solve { Settings.zeroTolerance with maxIterations := 3 } pinned = .error (.iterationLimit 3)
    ∧ solve { Settings.zeroTolerance with maxIterations := 1 } pinned = .error (.iterationLimit 1)
    ∧ (solve { Settings.zeroTolerance with trace := true } pinned).map Solution.untraced
      = .ok sol.untraced := by
  obtain ⟨sol, h, hfour⟩ := exists_solve_eq_of_map (s := .zeroTolerance) (p := pinned)
    (f := fun sol ↦ sol.iterations) (b := 4) (by decide +kernel)
  obtain ⟨hsol, -, htrace⟩ := solve_of_limit .zeroTolerance pinned
  obtain ⟨-, hfits, hshort⟩ := hsol sol h
  have hthree := hshort 3 (by omega)
  -- The limit of one lets the first phase end and stops the exchange.
  have hone := ((solve_of_limit _ pinned).2.1 3 hthree).2 1 (by omega)
  refine ⟨sol, h, hfour, hfits 4 hfour.le, hthree, hone, ?_⟩
  rw [htrace true, h]
  rfl

end

end LinearProgramming
