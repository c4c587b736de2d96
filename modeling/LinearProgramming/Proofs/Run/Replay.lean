import LinearProgramming.Proofs.Run.Trail
import LinearProgramming.Proofs.Tableau.Choice

/-!
# Traces that replay their run

A trace holds tableaus and says of each how it came about. That is enough to make it again: each
step follows from the one before it, by the pivot it names or, if it names none, by the turn to
phase two. A trace in which this holds from the first tableau on is a *replay*, and a run with a
trace keeps one up to the tableau it stands at.

Counting in a replay needs no look at the run. A pivot adds one to the number of pivots and keeps
the phase, the turn keeps the number and changes the phase, and there is no way back. So the
numbers of pivots and of turns are told by the first step and the last.
-/

namespace LinearProgramming

variable {α : Type} [Scalar α]

namespace Step

/-- That a step is made from the one before it. -/
inductive Follows (form : StandardForm α) (a b : Step α) : Prop
  | pivoted {i j : ℕ} {t : Tableau α} (hpivot : b.pivot = some (i, j))
      (hiteration : b.iteration = a.iteration + 1) (hphase : b.phase = a.phase)
      (ht : a.tableau.pivot? i j = some t) (hbasis : b.basis = t.basis) (hgrid : b.grid = t.grid)
  /-- The turn to phase two. -/
  | turned (hpivot : b.pivot = none) (hiteration : b.iteration = a.iteration)
      (hone : a.phase = .one) (htwo : b.phase = .two)
      (hbasis : b.basis = (a.tableau.installPhaseTwo form).basis)
      (hgrid : b.grid = (a.tableau.installPhaseTwo form).grid)

variable {form : StandardForm α} {a last : Step α} {l : List (Step α)}

/-! ## Counting -/

theorem phase_eq_two_of_isChain (h : (a :: l).IsChain (Follows form)) (htwo : a.phase = .two) :
    ∀ b ∈ l, b.phase = .two := by
  induction l generalizing a with
  | nil => simp
  | cons b l ih =>
    obtain ⟨hfollows, hrest⟩ := List.isChain_cons_cons.mp h
    have hb : b.phase = .two := by
      rcases hfollows with ⟨-, -, hphase, -, -, -⟩ | ⟨-, -, -, hphase, -, -⟩
      · exact hphase.trans htwo
      · exact hphase
    simpa [hb] using ih hrest hb

/-- **The pivots of a replay** are those that the last step has made more than the first. -/
theorem countP_isSome_of_isChain (h : (a :: l).IsChain (Follows form))
    (hlast : (a :: l).getLast? = some last) :
    a.iteration + l.countP (·.pivot.isSome) = last.iteration := by
  induction l generalizing a with
  | nil =>
    obtain rfl : a = last := by simpa using hlast
    rfl
  | cons b l ih =>
    obtain ⟨hfollows, hrest⟩ := List.isChain_cons_cons.mp h
    rw [List.getLast?_cons_cons] at hlast
    rw [← ih hrest hlast, List.countP_cons]
    rcases hfollows with ⟨hpivot, hiteration, -, -, -, -⟩ | ⟨hpivot, hiteration, -, -, -, -⟩
    · simp [hpivot, hiteration]
      omega
    · simp [hpivot, hiteration]

/-- **The turns of a replay**: one if it leads from phase one to phase two, and none otherwise. -/
theorem countP_isNone_of_isChain (h : (a :: l).IsChain (Follows form))
    (hlast : (a :: l).getLast? = some last) :
    l.countP (·.pivot.isNone) = if a.phase = .one ∧ last.phase = .two then 1 else 0 := by
  induction l generalizing a with
  | nil =>
    obtain rfl : a = last := by simpa using hlast
    have hnot : ¬(a.phase = .one ∧ a.phase = .two) := by
      rintro ⟨hone, htwo⟩
      rw [hone] at htwo
      cases htwo
    rw [if_neg hnot]
    rfl
  | cons b l ih =>
    obtain ⟨hfollows, hrest⟩ := List.isChain_cons_cons.mp h
    rw [List.getLast?_cons_cons] at hlast
    rw [List.countP_cons, ih hrest hlast]
    rcases hfollows with ⟨hpivot, -, hphase, -, -, -⟩ | ⟨hpivot, -, hone, htwo, -, -⟩
    · simp [hpivot, hphase]
    · -- Once in phase two, all that follows is.
      have hend : last.phase = .two := by
        rcases List.mem_cons.mp (List.mem_of_getLast? hlast) with rfl | hmem
        · exact htwo
        · exact phase_eq_two_of_isChain hrest htwo last hmem
      simp [hpivot, hone, htwo, hend]

end Step

/-! ## What a traced run keeps -/

namespace Run

variable {s : Settings α} {form : StandardForm α} {stage : Stage} {r r' : Run α}

/-- That the kept steps are a replay, from the first tableau up to the present one. -/
structure Replays (form : StandardForm α) (r : Run α) : Prop where
  head : r.steps.toList.head? = some ((Tableau.initial form).toStep 0 none)
  isChain : r.steps.toList.IsChain (Step.Follows form)
  last : ∃ pivot, r.steps.toList.getLast? = some (r.tableau.toStep r.iterations pivot)

theorem Replays.record {pivot : Option (ℕ × ℕ)} (htrace : s.trace = true) (h : r.Replays form)
    (hsteps : r'.steps = r.steps) (hfollows : ∀ last,
      Step.Follows form (r.tableau.toStep r.iterations last)
        (r'.tableau.toStep r'.iterations pivot)) : (r'.record s pivot).Replays form := by
  obtain ⟨last, hlast⟩ := h.last
  have hlist : (r'.record s pivot).steps.toList
      = r.steps.toList ++ [r'.tableau.toStep r'.iterations pivot] := by
    rw [steps_record htrace, hsteps, Array.toList_push]
  refine ⟨?_, ?_, pivot, ?_⟩
  · rw [hlist, List.head?_append, h.head, Option.some_or]
  · rw [hlist, List.isChain_append]
    refine ⟨h.isChain, List.isChain_singleton _, fun a ha b hb ↦ ?_⟩
    rw [hlast, Option.mem_some_iff] at ha
    obtain rfl : r'.tableau.toStep r'.iterations pivot = b := by simpa using hb
    exact ha ▸ hfollows last
  · rw [hlist, List.getLast?_concat, Run.record, if_pos htrace]

theorem Replays.pivot (htrace : s.trace = true) (h : r.Replays form) {i j : ℕ}
    (ht : r.tableau.pivot? i j = some (r.tableau.pivot i j)) :
    (r.pivot s i j).Replays form :=
  h.record htrace rfl fun last ↦ .pivoted rfl rfl rfl (by rwa [Tableau.tableau_toStep]) rfl rfl

/-- **A traced run keeps a replay.** Each of the three places that keep a tableau does so once, and
for the tableau that has just been made. -/
theorem Passes.replays (htrace : s.trace = true) (h : Passes s form stage r) :
    r.Replays form := by
  induction h with
  | start =>
    have hlist : (Run.start s form).steps.toList = [(Tableau.initial form).toStep 0 none] := by
      rw [Run.start, steps_record htrace]
      rfl
    refine ⟨by rw [hlist]; rfl, by rw [hlist]; exact List.isChain_singleton _, none, ?_⟩
    rw [hlist, Run.start, Run.record, if_pos htrace]
    rfl
  | pivot _ hj hi _ ih => exact ih.pivot htrace (Tableau.pivot?_of_chosen hj hi)
  | turn _ _ _ ih => exact ih
  | pass _ _ ih => exact ih
  | redundant _ _ _ ih => exact ⟨ih.head, ih.isChain, ih.last⟩
  | exchange _ hart hj _ ih => exact ih.pivot htrace (Tableau.pivot?_of_exchanged hart hj)
  | enterPhaseTwo h ih =>
    refine ih.record htrace rfl fun last ↦ .turned rfl rfl h.reached.phase_eq rfl ?_ ?_
    · rw [Tableau.tableau_toStep]
      rfl
    · rw [Tableau.tableau_toStep]
      rfl

theorem Replays.exists_eq_cons (h : r.Replays form) :
    ∃ l, r.steps.toList = (Tableau.initial form).toStep 0 none :: l :=
  List.head?_eq_some_iff.mp h.head

end Run

theorem head?_trail (s : Settings α) (form : StandardForm α) :
    (trail s form).head? = some ((Tableau.initial form).toStep 0 none) := by
  obtain ⟨stage, r, hr, hsteps⟩ := exists_passes_trail s form
  rw [hsteps]
  exact (hr.replays rfl).head

end LinearProgramming
