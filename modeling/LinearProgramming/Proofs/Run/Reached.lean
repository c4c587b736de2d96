import LinearProgramming.Solver
import Mathlib.Data.Nat.Notation
import Mathlib.Tactic.SplitIfs

/-!
# The tableaus a solve passes through

A solve moves between tableaus by five kinds of step: a chosen pivot, the turn to exchanging the
artificial variables, a row that is passed over, a row that is exchanged, and the turn to phase two.
`Reached` is the closure of the first tableau under these steps, and an invariant of a solve is
something that each step keeps.

The pivot limit plays no part in it. It only decides how far along this relation a run comes, and a
run that finishes has come to a tableau from which no step leads on.

## Runs

A run carries more than its tableau. `Run.Passes` is the same closure for whole runs, with the limit
as a condition on each pivot, and the code is opened once to show that every run it hands back, also
one that is stopped, is in it. What is to be said of the pivots, the events or the kept tableaus of
a run is then an induction over `Run.Passes`.
-/

namespace LinearProgramming

/-- Where a solve stands. -/
inductive Stage
  /-- Pivoting towards an optimum of a phase. -/
  | optimizing (phase : Phase)
  /-- Exchanging artificial variables, with some rows still to be looked at. -/
  | exchanging (rows : List ℕ)

variable {α : Type} [Scalar α]

/-- The tableaus that a solve with tolerance `ε` passes through, and where it stands with them. -/
inductive Reached (form : StandardForm α) (ε : α) : Stage → Tableau α → Prop
  | initial : Reached form ε (.optimizing (Tableau.initial form).phase) (Tableau.initial form)
  /-- A pivot of either phase. -/
  | pivot {phase : Phase} {t : Tableau α} {i j : ℕ} (h : Reached form ε (.optimizing phase) t)
      (hj : t.enteringColumn form ε = some j) (hi : t.leavingRow ε j = some i) :
      Reached form ε (.optimizing phase) (t.pivot i j)
  /-- The end of phase one, with the artificial variables summing to zero. -/
  | turn {t : Tableau α} (h : Reached form ε (.optimizing .one) t)
      (hstop : t.enteringColumn form ε = none) (hzero : ¬ε < Scalar.abs t.objectiveValue) :
      Reached form ε (.exchanging (List.range t.numRows)) t
  /-- A row whose basic variable is genuine, or cannot be replaced. -/
  | pass {t : Tableau α} {i : ℕ} {rows : List ℕ} (h : Reached form ε (.exchanging (i :: rows)) t)
      (hkeep : t.basis[i]?.any form.isArtificial = true → t.replacementColumn form ε i = none) :
      Reached form ε (.exchanging rows) t
  /-- A row whose artificial variable is replaced. -/
  | exchange {t : Tableau α} {i j : ℕ} {rows : List ℕ}
      (h : Reached form ε (.exchanging (i :: rows)) t)
      (hart : t.basis[i]?.any form.isArtificial = true)
      (hj : t.replacementColumn form ε i = some j) :
      Reached form ε (.exchanging rows) (t.pivot i j)
  /-- The turn to the problem's own objective. -/
  | install {t : Tableau α} (h : Reached form ε (.exchanging []) t) :
      Reached form ε (.optimizing .two) (t.installPhaseTwo form)

/-- The tableaus at which a solve with tolerance `ε` ends, and how it ends with them. -/
inductive Finished (form : StandardForm α) (ε : α) : Status → Tableau α → Prop
  | optimal {t : Tableau α} (h : Reached form ε (.optimizing .two) t)
      (hstop : t.enteringColumn form ε = none) : Finished form ε .optimal t
  | unbounded {t : Tableau α} {j : ℕ} (h : Reached form ε (.optimizing .two) t)
      (hj : t.enteringColumn form ε = some j) (hi : t.leavingRow ε j = none) :
      Finished form ε .unbounded t
  /-- Phase one found a column that no row limits. -/
  | unlimited {t : Tableau α} {j : ℕ} (h : Reached form ε (.optimizing .one) t)
      (hj : t.enteringColumn form ε = some j) (hi : t.leavingRow ε j = none) :
      Finished form ε .infeasible t
  /-- Phase one ended with artificial variables that do not sum to zero. -/
  | remaining {t : Tableau α} (h : Reached form ε (.optimizing .one) t)
      (hstop : t.enteringColumn form ε = none) (hlarge : ε < Scalar.abs t.objectiveValue) :
      Finished form ε .infeasible t

/-! ## What no step changes -/

def Stage.phase : Stage → Phase
  | .optimizing phase => phase
  | .exchanging _ => .one

namespace Tableau

theorem phase_initial (form : StandardForm α) :
    (initial form).phase = if form.hasArtificial then .one else .two := by
  rw [initial]
  split_ifs <;> rfl

theorem numRows_initial (form : StandardForm α) :
    (initial form).numRows = form.rows.length := by
  rw [initial]
  split_ifs <;> exact List.length_map ..

end Tableau

section Stage

variable {form : StandardForm α} {ε : α} {stage : Stage} {t : Tableau α} {status : Status}

theorem Reached.phase_eq (h : Reached form ε stage t) : t.phase = stage.phase := by
  induction h with
  | initial => rfl
  | pivot _ _ _ ih => exact ih
  | turn _ _ _ ih => exact ih
  | pass _ _ ih => exact ih
  | exchange _ _ _ ih => exact ih
  | install => rfl

theorem Reached.numRows_eq (h : Reached form ε stage t) : t.numRows = form.rows.length := by
  induction h with
  | initial => exact Tableau.numRows_initial form
  | pivot _ _ _ ih => exact (List.length_mapIdx ..).trans ih
  | turn _ _ _ ih => exact ih
  | pass _ _ ih => exact ih
  | exchange _ _ _ ih => exact (List.length_mapIdx ..).trans ih
  | install _ ih => exact ih

/-- A solve that ends in phase one has found no feasible point. -/
theorem Finished.phase_eq (h : Finished form ε status t) :
    t.phase = if status = .infeasible then .one else .two := by
  rcases h with h | h | h | h
  · exact h.phase_eq
  · exact h.phase_eq
  · exact h.phase_eq
  · exact h.phase_eq

end Stage

/-- What a stop says of the tableau it happened at. -/
def Stop.Describes (form : StandardForm α) (ε : α) (t : Tableau α) : Stop → Prop
  | .noEntering => t.enteringColumn form ε = none
  | .noLeaving j => t.enteringColumn form ε = some j ∧ t.leavingRow ε j = none

namespace Run

variable {s : Settings α} {form : StandardForm α} {r r' : Run α}

/-! ## What the bookkeeping leaves alone -/

omit [Scalar α] in
@[simp] theorem tableau_record (s : Settings α) (pivot : Option (ℕ × ℕ)) (r : Run α) :
    (r.record s pivot).tableau = r.tableau := by
  rw [record]
  split_ifs <;> rfl

omit [Scalar α] in
@[simp] theorem events_record (s : Settings α) (pivot : Option (ℕ × ℕ)) (r : Run α) :
    (r.record s pivot).events = r.events := by
  rw [record]
  split_ifs <;> rfl

@[simp] theorem tableau_pivot (s : Settings α) (i j : ℕ) (r : Run α) :
    (r.pivot s i j).tableau = r.tableau.pivot i j := by
  rw [pivot, tableau_record]

@[simp] theorem tableau_start (s : Settings α) (form : StandardForm α) :
    (start s form).tableau = .initial form := by
  rw [start, tableau_record]

@[simp] theorem tableau_enterPhaseTwo (s : Settings α) (form : StandardForm α) (r : Run α) :
    (r.enterPhaseTwo s form).tableau = r.tableau.installPhaseTwo form := by
  rw [enterPhaseTwo, tableau_record]

@[simp] theorem iterations_pivot (s : Settings α) (i j : ℕ) (r : Run α) :
    (r.pivot s i j).iterations = r.iterations + 1 := by
  rw [pivot, record]
  split_ifs <;> rfl

/-! ## The runs a solve goes through -/

/-- The runs that a solve goes through, and where it stands with them. -/
inductive Passes (s : Settings α) (form : StandardForm α) : Stage → Run α → Prop
  | start : Passes s form (.optimizing (Tableau.initial form).phase) (start s form)
  | pivot {phase : Phase} {r : Run α} {i j : ℕ} (h : Passes s form (.optimizing phase) r)
      (hj : r.tableau.enteringColumn form s.tolerance = some j)
      (hi : r.tableau.leavingRow s.tolerance j = some i)
      (hlimit : r.iterations < s.maxIterations) : Passes s form (.optimizing phase) (r.pivot s i j)
  | turn {r : Run α} (h : Passes s form (.optimizing .one) r)
      (hstop : r.tableau.enteringColumn form s.tolerance = none)
      (hzero : ¬s.tolerance < Scalar.abs r.tableau.objectiveValue) :
      Passes s form (.exchanging (List.range r.tableau.numRows)) r
  /-- A row whose basic variable is genuine. -/
  | pass {r : Run α} {i : ℕ} {rows : List ℕ} (h : Passes s form (.exchanging (i :: rows)) r)
      (hkeep : ¬r.tableau.basis[i]?.any form.isArtificial = true) :
      Passes s form (.exchanging rows) r
  /-- A row whose artificial variable cannot be replaced. -/
  | redundant {r : Run α} {i : ℕ} {rows : List ℕ} (h : Passes s form (.exchanging (i :: rows)) r)
      (hart : r.tableau.basis[i]?.any form.isArtificial = true)
      (hnone : r.tableau.replacementColumn form s.tolerance i = none) :
      Passes s form (.exchanging rows) (r.report (.rowRedundant i))
  | exchange {r : Run α} {i j : ℕ} {rows : List ℕ} (h : Passes s form (.exchanging (i :: rows)) r)
      (hart : r.tableau.basis[i]?.any form.isArtificial = true)
      (hj : r.tableau.replacementColumn form s.tolerance i = some j)
      (hlimit : r.iterations < s.maxIterations) : Passes s form (.exchanging rows) (r.pivot s i j)
  | enterPhaseTwo {r : Run α} (h : Passes s form (.exchanging []) r) :
      Passes s form (.optimizing .two) (r.enterPhaseTwo s form)

/-- **Runs follow the steps.** -/
theorem Passes.reached {stage : Stage} (h : Passes s form stage r) :
    Reached form s.tolerance stage r.tableau := by
  induction h with
  | start => exact (tableau_start s form).symm ▸ .initial
  | pivot _ hj hi _ ih => exact (tableau_pivot s _ _ _).symm ▸ ih.pivot hj hi
  | turn _ hstop hzero ih => exact ih.turn hstop hzero
  | pass _ hkeep ih => exact ih.pass fun hart ↦ absurd hart hkeep
  | redundant _ _ hnone ih => exact ih.pass fun _ ↦ hnone
  | exchange _ hart hj _ ih => exact (tableau_pivot s _ _ _).symm ▸ ih.exchange hart hj
  | enterPhaseTwo _ ih => exact (tableau_enterPhaseTwo s form _).symm ▸ ih.install

/-- A run at which a solve ends: the events apart, it is one that the solve goes through. -/
structure Ends (s : Settings α) (form : StandardForm α) (status : Status) (r : Run α) : Prop where
  finished : Finished form s.tolerance status r.tableau
  passed : ∃ stage events, Passes s form stage { r with events := events }

theorem Ends.report {status : Status} (h : Ends s form status r) (event : Event α) :
    Ends s form status (r.report event) := ⟨h.finished, h.passed⟩

theorem Passes.ends {stage : Stage} {status : Status} (h : Passes s form stage r)
    (hfin : Finished form s.tolerance status r.tableau) : Ends s form status r :=
  ⟨hfin, stage, r.events, h⟩

/-! ## Each part of a solve goes through such runs

Whether a part goes on or is stopped at the pivot limit, it hands back a run that the solve has come
to. -/

/-- What is said of a part of a solve: one thing of the run it was stopped with, another of what it
goes on with. -/
def Outcome {β : Type} (stopped : Run α → Prop) (goesOn : β → Prop) : Except (Run α) β → Prop
  | .error r => stopped r
  | .ok b => goesOn b

/-- That a part of a solve ends it, or is stopped. -/
def EndsOrStops (s : Settings α) (form : StandardForm α) :
    Except (Run α) (Run α × Status) → Prop :=
  Outcome (fun r ↦ ∃ stage, Passes s form stage r) fun (r, status) ↦ Ends s form status r

theorem passes_of_optimizeWithin {phase : Phase} {budget : ℕ}
    (hr : Passes s form (.optimizing phase) r) (hbudget : budget ≤ s.maxIterations - r.iterations) :
    Outcome (Passes s form (.optimizing phase))
      (fun (r, stop) ↦ Passes s form (.optimizing phase) r
        ∧ stop.Describes form s.tolerance r.tableau) (r.optimizeWithin s form budget) := by
  -- Induction on the pivots that are left, for every run the solve can be at: each pivot taken is
  -- one step, and as long as one is left the limit has not been reached.
  induction budget generalizing r with
  | zero =>
    rw [optimizeWithin]
    split
    · rename_i hj
      exact ⟨hr, hj⟩
    · rename_i j hj
      split
      · rename_i hi
        exact ⟨hr, hj, hi⟩
      · exact hr
  | succ budget ih =>
    rw [optimizeWithin]
    split
    · rename_i hj
      exact ⟨hr, hj⟩
    · rename_i j hj
      split
      · rename_i hi
        exact ⟨hr, hj, hi⟩
      · rename_i i hi
        refine ih (hr.pivot hj hi (by omega)) ?_
        rw [iterations_pivot]
        omega

theorem passes_of_driveOutOf {rows : List ℕ} (hr : Passes s form (.exchanging rows) r) :
    Outcome (fun r ↦ ∃ stage, Passes s form stage r) (Passes s form (.exchanging []))
      (driveOutOf s form rows r) := by
  induction rows generalizing r with
  | nil => exact hr
  | cons i rows ih =>
    rw [driveOutOf]
    split
    · rename_i hart
      split
      · rename_i hnone
        exact ih (hr.redundant hart hnone)
      · rename_i j hj
        split
        · rename_i hlimit
          exact ih (hr.exchange hart hj hlimit)
        · exact ⟨_, hr⟩
    · rename_i hart
      exact ih (hr.pass hart)

theorem endsOrStops_phaseTwo (hr : Passes s form (.optimizing .two) r) :
    EndsOrStops s form (r.phaseTwo s form) := by
  have hopt := passes_of_optimizeWithin hr (Nat.le_refl _)
  rw [phaseTwo, optimize]
  split
  · rename_i r' h
    rw [h] at hopt
    exact ⟨_, hopt⟩
  · rename_i r' h
    rw [h] at hopt
    exact hopt.1.ends (.optimal hopt.1.reached hopt.2)
  · rename_i r' j h
    rw [h] at hopt
    exact hopt.1.ends (.unbounded hopt.1.reached hopt.2.1 hopt.2.2)

theorem endsOrStops_phaseOne (hr : Passes s form (.optimizing .one) r) :
    EndsOrStops s form (r.phaseOne s form) := by
  have hopt := passes_of_optimizeWithin hr (Nat.le_refl _)
  rw [phaseOne, optimize]
  split
  · rename_i r' h
    rw [h] at hopt
    exact ⟨_, hopt⟩
  · rename_i r' j h
    rw [h] at hopt
    exact (hopt.1.ends (.unlimited hopt.1.reached hopt.2.1 hopt.2.2)).report _
  · rename_i r₁ h
    rw [h] at hopt
    obtain ⟨hr₁, hstop⟩ := hopt
    split_ifs with hlarge
    · exact (hr₁.ends (.remaining hr₁.reached hstop hlarge)).report _
    · have hdrive := passes_of_driveOutOf (hr₁.turn hstop hlarge)
      rw [driveOut]
      split
      · rename_i r₂ h
        rwa [h] at hdrive
      · rename_i r₂ h
        rw [h] at hdrive
        exact endsOrStops_phaseTwo hdrive.enterPhaseTwo

/-- **A solve goes through its runs to an end or to the pivot limit.** -/
theorem endsOrStops_complete (s : Settings α) (form : StandardForm α) :
    EndsOrStops s form (complete s form) := by
  have hphases : EndsOrStops s form ((start s form).phases s form) := by
    have hr : Passes s form (.optimizing (start s form).tableau.phase) (start s form) := by
      rw [tableau_start]
      exact .start
    rw [phases]
    split
    · rename_i hone
      exact endsOrStops_phaseOne (hone ▸ hr)
    · rename_i htwo
      exact endsOrStops_phaseTwo (htwo ▸ hr)
  rw [complete]
  split
  · rename_i r h
    rwa [h] at hphases
  · rename_i r status h
    rw [h] at hphases
    exact hphases.report _

theorem finished_of_complete {status : Status} (h : complete s form = .ok (r', status)) :
    Finished form s.tolerance status r'.tableau := by
  have hends := endsOrStops_complete s form
  rw [h] at hends
  exact hends.finished

/-! ## What a finished run stands for -/

variable {p : Problem α} {status : Status}

theorem status_toSolution : (r.toSolution s p form status).status = status := by
  unfold toSolution
  cases status <;> split_ifs <;> rfl

theorem values_toSolution : (r.toSolution s p form .optimal).values
    = some (r.tableau.structuralValues form s.tolerance) := by
  unfold toSolution
  split_ifs <;> rfl

theorem analysis_toSolution : (r.toSolution s p form .optimal).analysis
    = some (r.tableau.analysis p form s.tolerance) := by
  unfold toSolution
  split_ifs <;> rfl

theorem objectiveValue_toSolution : (r.toSolution s p form .optimal).objectiveValue
    = some (if form.signFlipped then -r.tableau.objectiveValue else r.tableau.objectiveValue) := by
  unfold toSolution
  cases s.trace <;> rfl

end Run

/-! ## Solves follow the steps -/

/-- **What a solve hands back** stands for a run that has come to the end of the steps. -/
theorem exists_finished_of_solve {s : Settings α} {p : Problem α} {sol : Solution α}
    (h : solve s p = .ok sol) :
    p.WellFormed ∧ ∃ r : Run α, Run.complete s (.ofWellFormed p) = .ok (r, sol.status)
      ∧ sol = r.toSolution s p (.ofWellFormed p) sol.status
      ∧ Finished (.ofWellFormed p) s.tolerance sol.status r.tableau := by
  rw [solve, solveWithEvents] at h
  cases hvalid : p.validate with
  | error fault =>
    rw [StandardForm.ofProblem, hvalid] at h
    cases h
  | ok _ =>
    rw [StandardForm.ofProblem, hvalid] at h
    simp only at h
    split at h
    · cases h
    · rename_i r status hrun
      cases h
      refine ⟨hvalid, r, ?_⟩
      rw [Run.status_toSolution]
      exact ⟨hrun, rfl, Run.finished_of_complete hrun⟩

/-- A property of the solution that evaluating the solve shows is one of the solution handed
back. -/
theorem exists_solve_eq_of_map {s : Settings α} {p : Problem α} {β : Type} {f : Solution α → β}
    {b : β} (h : (solve s p).toOption.map f = some b) : ∃ sol, solve s p = .ok sol ∧ f sol = b := by
  cases hsolve : solve s p with
  | error fault =>
    rw [hsolve] at h
    cases h
  | ok sol =>
    rw [hsolve] at h
    exact ⟨sol, rfl, Option.some_inj.mp h⟩

end LinearProgramming
