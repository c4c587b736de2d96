import LinearProgramming.Proofs.Solve.Limit

/-!
# What a run counts

The events of a run tell its pivots one by one, each with its number, and the counter of the run is
the number of those told so far. The turn to phase two is told as well, and once at most, since no
step leads back from it.

None of this depends on the tableaus, and so on nothing that the numbers do.
-/

namespace LinearProgramming

variable {α : Type}

namespace Event

/-- The number that a pivot has among the pivots. -/
def number? : Event α → Option ℕ
  | pivoted count .. => some count
  | _ => none

/-- Whether the event is the turn to phase two. -/
def isTurn : Event α → Bool
  | phaseOneComplete _ => true
  | _ => false

end Event

namespace Run

variable [Scalar α] {s : Settings α} {form : StandardForm α} {stage stage' : Stage}
  {r r' q : Run α} {status : Status}

/-- That the events of a run count its pivots, and at most one turn to phase two, which is still to
come in phase one. -/
structure Counted (stage : Stage) (r : Run α) : Prop where
  countP_number? : r.events.toList.countP (·.number?.isSome) = r.iterations
  countP_isTurn : r.events.toList.countP (·.isTurn) + (if stage.phase = .one then 1 else 0) ≤ 1
  number_le : ∀ event ∈ r.events.toList, ∀ n ∈ event.number?, n ≤ r.iterations

omit [Scalar α] in
theorem Counted.of_phase (h : r.Counted stage) (hphase : stage'.phase = stage.phase) :
    r.Counted stage' := ⟨h.countP_number?, hphase ▸ h.countP_isTurn, h.number_le⟩

omit [Scalar α] in
theorem Counted.report (h : r.Counted stage) {event : Event α} (hnumber : event.number? = none)
    (hturn : event.isTurn = false) : (r.report event).Counted stage := by
  have hlist : (r.report event).events.toList = r.events.toList ++ [event] := Array.toList_push
  refine ⟨?_, ?_, ?_⟩
  · rw [hlist, List.countP_append, List.countP_singleton, hnumber]
    exact h.countP_number?
  · rw [hlist, List.countP_append, List.countP_singleton, hturn]
    exact h.countP_isTurn
  · rw [hlist]
    intro e he n hn
    rcases List.mem_append.mp he with he | he
    · exact h.number_le e he n hn
    · rw [List.mem_singleton.mp he, hnumber] at hn
      cases hn

theorem Counted.pivot (h : r.Counted stage) (i j : ℕ) : (r.pivot s i j).Counted stage := by
  have hlist : (r.pivot s i j).events.toList = r.events.toList
      ++ [.pivoted (r.iterations + 1) j (r.tableau.basis[i]?.getD 0) i] := by
    rw [Run.pivot, events_record, Array.toList_push]
  refine ⟨?_, ?_, ?_⟩
  · rw [hlist, List.countP_append, h.countP_number?, iterations_pivot]
    rfl
  · rw [hlist, List.countP_append]
    exact h.countP_isTurn
  · rw [hlist, iterations_pivot]
    intro e he n hn
    rcases List.mem_append.mp he with he | he
    · exact Nat.le_succ_of_le (h.number_le e he n hn)
    · rw [List.mem_singleton.mp he] at hn
      exact (Option.some_inj.mp hn).ge

theorem Counted.enterPhaseTwo (h : r.Counted (.exchanging [])) :
    (r.enterPhaseTwo s form).Counted (.optimizing .two) := by
  have hlist : (r.enterPhaseTwo s form).events.toList
      = r.events.toList ++ [.phaseOneComplete r.iterations] := by
    rw [Run.enterPhaseTwo, events_record, Array.toList_push]
  refine ⟨?_, ?_, ?_⟩
  · rw [hlist, List.countP_append, iterations_enterPhaseTwo]
    exact h.countP_number?
  · rw [hlist, List.countP_append]
    exact h.countP_isTurn
  · rw [hlist, iterations_enterPhaseTwo]
    intro e he n hn
    rcases List.mem_append.mp he with he | he
    · exact h.number_le e he n hn
    · rw [List.mem_singleton.mp he] at hn
      cases hn

theorem counted_start (s : Settings α) (form : StandardForm α) :
    (start s form).Counted (.optimizing (Tableau.initial form).phase) := by
  have hlist : (start s form).events.toList = [.started form.numStructural form.rows.length
      form.numAuxiliary form.numArtificial] := by
    rw [start, events_record]
  refine ⟨?_, ?_, ?_⟩
  · rw [hlist, iterations_start]
    rfl
  · rw [hlist]
    cases hphase : (Tableau.initial form).phase <;> simp [Stage.phase, Event.isTurn]
  · rw [hlist]
    intro e he n hn
    rw [List.mem_singleton.mp he] at hn
    cases hn

/-- **Runs count what they do.** -/
theorem Passes.counted (h : Passes s form stage r) : r.Counted stage := by
  induction h with
  | start => exact counted_start s form
  | pivot _ _ _ _ ih => exact ih.pivot _ _
  | turn _ _ _ ih => exact ih.of_phase rfl
  | pass _ _ ih => exact ih.of_phase rfl
  | redundant _ _ _ ih => exact (ih.report rfl rfl).of_phase rfl
  | exchange _ _ _ _ ih => exact (ih.pivot _ _).of_phase rfl
  | enterPhaseTwo _ ih => exact ih.enterPhaseTwo

theorem Closes.counted (h : Closes s form stage r r' status) (hr : r.Counted stage) :
    r'.Counted stage := by
  rcases h with _ | _ | _ | _
  · exact hr
  · exact hr
  · exact hr.report rfl rfl
  · exact hr.report rfl rfl

theorem Passes.iterations_le (h : Passes s form stage r) : r.iterations ≤ s.maxIterations := by
  induction h with
  | start =>
    rw [iterations_start]
    exact Nat.zero_le _
  | pivot _ _ _ hlimit ih =>
    rw [iterations_pivot]
    exact hlimit
  | turn _ _ _ ih => exact ih
  | pass _ _ ih => exact ih
  | redundant _ _ _ ih => exact ih
  | exchange _ _ _ hlimit ih =>
    rw [iterations_pivot]
    exact hlimit
  | enterPhaseTwo _ ih => rwa [iterations_enterPhaseTwo]

/-- **A whole run counts what it does**, within its limit. -/
theorem exists_counted_complete (s : Settings α) (form : StandardForm α) :
    ∃ stage r, r.Counted stage ∧ r.iterations ≤ s.maxIterations
      ∧ ((∃ status, complete s form = .ok (r, status)) ∨ complete s form = .error r) := by
  have hends := endsOrStops_complete s form
  cases hrun : complete s form with
  | error r =>
    rw [hrun] at hends
    obtain ⟨stage, hr⟩ := hends
    exact ⟨stage, r, hr.counted, hr.iterations_le, .inr rfl⟩
  | ok result =>
    obtain ⟨r, status⟩ := result
    obtain ⟨q, hends, hle, rfl⟩ := complete_eq_ok_iff.mp hrun
    obtain ⟨stage, last, hlast, hcloses⟩ := hends.exists_closes .start hle
    exact ⟨stage, _, (hcloses.counted hlast.counted).report rfl rfl, hle, .inl ⟨status, rfl⟩⟩

end Run

end LinearProgramming
