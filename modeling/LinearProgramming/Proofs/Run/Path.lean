import LinearProgramming.Proofs.Run.Concludes
import LinearProgramming.Proofs.Run.Replay
import Mathlib.Logic.Relation

/-!
# One path

A solve is deterministic, so the runs it goes through lie on one path and of any two of them one
leads to the other. `Run.Next` is a single step of that path, with the pivot limit, and `Run.Leads`
is its reflexive and transitive closure. What is compared along a solve, two runs of the same phase
say, can then be compared step by step.

Steps add pivots and tableaus and take none away. So the tableaus that a solve with a trace keeps up
to some run are the first ones of those it has kept at the end, and a trail shows every tableau.
-/

namespace LinearProgramming

variable {α : Type} [Scalar α]

namespace Run

/-- A step of a solve. -/
inductive Next (s : Settings α) (form : StandardForm α) : Stage × Run α → Stage × Run α → Prop
  | pivot {phase : Phase} {r : Run α} {i j : ℕ}
      (hj : r.tableau.enteringColumn form s.tolerance = some j)
      (hi : r.tableau.leavingRow s.tolerance j = some i) (hlimit : r.iterations < s.maxIterations) :
      Next s form (.optimizing phase, r) (.optimizing phase, r.pivot s i j)
  | turn {r : Run α} (hstop : r.tableau.enteringColumn form s.tolerance = none)
      (hzero : ¬s.tolerance < Scalar.abs r.tableau.objectiveValue) :
      Next s form (.optimizing .one, r) (.exchanging (List.range r.tableau.numRows), r)
  /-- A row whose basic variable is genuine. -/
  | pass {r : Run α} {i : ℕ} {rows : List ℕ}
      (hkeep : ¬r.tableau.basis[i]?.any form.isArtificial = true) :
      Next s form (.exchanging (i :: rows), r) (.exchanging rows, r)
  /-- A row whose artificial variable cannot be replaced. -/
  | redundant {r : Run α} {i : ℕ} {rows : List ℕ}
      (hart : r.tableau.basis[i]?.any form.isArtificial = true)
      (hnone : r.tableau.replacementColumn form s.tolerance i = none) :
      Next s form (.exchanging (i :: rows), r) (.exchanging rows, r.report (.rowRedundant i))
  | exchange {r : Run α} {i j : ℕ} {rows : List ℕ}
      (hart : r.tableau.basis[i]?.any form.isArtificial = true)
      (hj : r.tableau.replacementColumn form s.tolerance i = some j)
      (hlimit : r.iterations < s.maxIterations) :
      Next s form (.exchanging (i :: rows), r) (.exchanging rows, r.pivot s i j)
  | enterPhaseTwo {r : Run α} :
      Next s form (.exchanging [], r) (.optimizing .two, r.enterPhaseTwo s form)

/-- That a solve comes from one run to another. -/
abbrev Leads (s : Settings α) (form : StandardForm α) : Stage × Run α → Stage × Run α → Prop :=
  Relation.ReflTransGen (Next s form)

variable {s : Settings α} {form : StandardForm α} {stage stage' : Stage} {r r' q : Run α}
  {status : Status} {x y z : Stage × Run α}

/-! ## Steps -/

/-- **No choice is left open.** -/
theorem Next.unique : Relator.RightUnique (Next s form) := by
  rintro x y z h h'
  cases h with
  | pivot hj hi =>
    cases h' with
    | pivot hj' hi' =>
      obtain rfl := Option.some_inj.mp (hj.symm.trans hj')
      obtain rfl := Option.some_inj.mp (hi.symm.trans hi')
      rfl
    | turn hstop =>
      rw [hj] at hstop
      cases hstop
  | turn hstop =>
    cases h' with
    | turn => rfl
    | pivot hj =>
      rw [hj] at hstop
      cases hstop
  | pass hkeep =>
    cases h' with
    | pass => rfl
    | redundant hart => exact absurd hart hkeep
    | exchange hart => exact absurd hart hkeep
  | redundant hart hnone =>
    cases h' with
    | redundant => rfl
    | pass hkeep => exact absurd hart hkeep
    | exchange _ hj =>
      rw [hj] at hnone
      cases hnone
  | exchange hart hj =>
    cases h' with
    | exchange _ hj' =>
      obtain rfl := Option.some_inj.mp (hj.symm.trans hj')
      rfl
    | pass hkeep => exact absurd hart hkeep
    | redundant _ hnone =>
      rw [hj] at hnone
      cases hnone
  | enterPhaseTwo =>
    cases h' with
    | enterPhaseTwo => rfl

theorem Next.passes (h : Next s form x y) (hx : Passes s form x.1 x.2) : Passes s form y.1 y.2 := by
  rcases h with ⟨hj, hi, hlimit⟩ | ⟨hstop, hzero⟩ | hkeep | ⟨hart, hnone⟩ | ⟨hart, hj, hlimit⟩ | -
  · exact hx.pivot hj hi hlimit
  · exact hx.turn hstop hzero
  · exact hx.pass hkeep
  · exact hx.redundant hart hnone
  · exact hx.exchange hart hj hlimit
  · exact hx.enterPhaseTwo

theorem Next.iterations_le (h : Next s form x y) : x.2.iterations ≤ y.2.iterations := by
  rcases h with _ | _ | _ | _ | _ | _ <;> simp [report]

/-! ## Paths -/

theorem Passes.of_leads (hx : Passes s form x.1 x.2) (h : Leads s form x y) :
    Passes s form y.1 y.2 := by
  induction h with
  | refl => exact hx
  | tail _ hstep ih => exact hstep.passes ih

theorem Leads.iterations_le (h : Leads s form x y) : x.2.iterations ≤ y.2.iterations := by
  induction h with
  | refl => exact Nat.le_refl _
  | tail _ hstep ih => exact Nat.le_trans ih hstep.iterations_le

theorem Leads.optimizing_two (h : Leads s form (.optimizing .two, r) x) :
    x.1 = .optimizing .two := by
  induction h with
  | refl => rfl
  | tail _ hstep ih =>
    rcases hstep with _ | _ | _ | _ | _ | _
    · exact ih
    · cases ih
    · cases ih
    · cases ih
    · cases ih
    · rfl

theorem Passes.leads (h : Passes s form stage r) :
    Leads s form (.optimizing (Tableau.initial form).phase, Run.start s form) (stage, r) := by
  induction h with
  | start => exact .refl
  | pivot _ hj hi hlimit ih => exact ih.tail (.pivot hj hi hlimit)
  | turn _ hstop hzero ih => exact ih.tail (.turn hstop hzero)
  | pass _ hkeep ih => exact ih.tail (.pass hkeep)
  | redundant _ hart hnone ih => exact ih.tail (.redundant hart hnone)
  | exchange _ hart hj hlimit ih => exact ih.tail (.exchange hart hj hlimit)
  | enterPhaseTwo _ ih => exact ih.tail .enterPhaseTwo

/-- **Of two runs one leads to the other.** -/
theorem Passes.leads_or_leads (hr : Passes s form stage r) (hq : Passes s form stage' q) :
    Leads s form (stage, r) (stage', q) ∨ Leads s form (stage', q) (stage, r) :=
  Relation.ReflTransGen.total_of_right_unique Next.unique hr.leads hq.leads

theorem Passes.leads_of_lt (hr : Passes s form stage r) (hq : Passes s form stage' q)
    (hlt : r.iterations < q.iterations) : Leads s form (stage, r) (stage', q) := by
  rcases hr.leads_or_leads hq with h | h
  · exact h
  · exact absurd h.iterations_le (Nat.not_le.mpr hlt)

/-! ## What is kept on the way -/

omit [Scalar α] in
theorem steps_isPrefix_record {pivot : Option (ℕ × ℕ)} (hsteps : r'.steps = r.steps) :
    r.steps.toList <+: (r'.record s pivot).steps.toList := by
  rw [← hsteps, record]
  split_ifs
  · rw [Array.toList_push]
    exact List.prefix_append ..
  · exact List.prefix_rfl

theorem steps_isPrefix_pivot (s : Settings α) (i j : ℕ) (r : Run α) :
    r.steps.toList <+: (r.pivot s i j).steps.toList := steps_isPrefix_record rfl

/-- **No step is dropped.** -/
theorem Concludes.steps_isPrefix (h : Concludes s form stage r r' status) :
    r.steps.toList <+: r'.steps.toList := by
  induction h with
  | optimal => exact List.prefix_rfl
  | unbounded => exact List.prefix_rfl
  | unlimited => exact List.prefix_rfl
  | remaining => exact List.prefix_rfl
  | pivot _ _ _ ih => exact (steps_isPrefix_pivot s _ _ _).trans ih
  | turn _ _ _ ih => exact ih
  | pass _ _ ih => exact ih
  | redundant _ _ _ ih => exact ih
  | exchange _ _ _ ih => exact (steps_isPrefix_pivot s _ _ _).trans ih
  | enterPhaseTwo _ ih =>
    refine List.IsPrefix.trans ?_ ih
    exact steps_isPrefix_record rfl

theorem Passes.of_trace (h : Passes s form stage r) (trace : Bool) :
    ∃ q, Passes { s with trace := trace } form stage q ∧ Agrees r q := by
  induction h with
  | start => exact ⟨_, .start, agrees_start s form trace⟩
  | pivot _ hj hi hlimit ih =>
    obtain ⟨q, hq, hagrees⟩ := ih
    rw [hagrees.tableau_eq] at hj hi
    rw [hagrees.iterations_eq] at hlimit
    exact ⟨_, hq.pivot hj hi hlimit, hagrees.pivot trace _ _⟩
  | turn _ hstop hzero ih =>
    obtain ⟨q, hq, hagrees⟩ := ih
    rw [hagrees.tableau_eq] at hstop hzero ⊢
    exact ⟨q, hq.turn hstop hzero, hagrees⟩
  | pass _ hkeep ih =>
    obtain ⟨q, hq, hagrees⟩ := ih
    rw [hagrees.tableau_eq] at hkeep
    exact ⟨q, hq.pass hkeep, hagrees⟩
  | redundant _ hart hnone ih =>
    obtain ⟨q, hq, hagrees⟩ := ih
    rw [hagrees.tableau_eq] at hart hnone
    exact ⟨_, hq.redundant hart hnone, hagrees.tableau_eq, hagrees.iterations_eq⟩
  | exchange _ hart hj hlimit ih =>
    obtain ⟨q, hq, hagrees⟩ := ih
    rw [hagrees.tableau_eq] at hart hj
    rw [hagrees.iterations_eq] at hlimit
    exact ⟨_, hq.exchange hart hj hlimit, hagrees.pivot trace _ _⟩
  | enterPhaseTwo _ ih =>
    obtain ⟨q, hq, hagrees⟩ := ih
    exact ⟨_, hq.enterPhaseTwo, hagrees.enterPhaseTwo trace⟩

end Run

end LinearProgramming
