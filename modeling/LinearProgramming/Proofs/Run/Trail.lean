import LinearProgramming.Proofs.Run.Reached
import Mathlib.Data.List.Chain

/-!
# The trail of a solve

The tableaus a solve passes through are there to be seen: a run that is asked for a trace keeps each
of them, the first one, the one after each pivot, and the one after the turn to phase two. This is
its *trail*. A run that is stopped at the pivot limit leaves one too.

A step of a trail holds phase, basis and grid, which is all of a tableau. So whatever is known of
the tableaus that can be reached is known of every step, and two neighbouring steps are one move
apart.
-/

namespace LinearProgramming

/-! ## Steps as tableaus -/

section Step

variable {α : Type}

def Step.tableau (step : Step α) : Tableau α where
  rows := List.zipWith TableauRow.mk step.basis step.grid
  objective := step.grid.getLastD []
  phase := step.phase

@[simp] theorem Tableau.tableau_toStep (t : Tableau α) (iteration : ℕ) (pivot : Option (ℕ × ℕ)) :
    (t.toStep iteration pivot).tableau = t := by
  have hrows : ∀ rows : List (TableauRow α), List.zipWith TableauRow.mk (rows.map (·.basic))
      (rows.map (·.cells) ++ [t.objective]) = rows := by
    intro rows
    induction rows with
    | nil => rfl
    | cons row rows ih =>
      rw [List.map_cons, List.map_cons, List.cons_append, List.zipWith_cons_cons, ih]
  have hlast : t.grid.getLastD [] = t.objective := by simp [grid]
  rw [Step.tableau, toStep, hlast, basis, grid, hrows]

end Step

/-! ## Moves -/

variable {α : Type} [Scalar α]

/-- The steps of a solve that make a new tableau, with the cell they pivot on. -/
inductive Move (form : StandardForm α) (ε : α) :
    Tableau α → Option (ℕ × ℕ) → Tableau α → Prop
  /-- A pivot chosen by the entering column and the leaving row. -/
  | chosen {phase : Phase} {t : Tableau α} {i j : ℕ} (h : Reached form ε (.optimizing phase) t)
      (hj : t.enteringColumn form ε = some j) (hi : t.leavingRow ε j = some i) :
      Move form ε t (some (i, j)) (t.pivot i j)
  /-- The exchange of an artificial variable. -/
  | exchanged {t : Tableau α} {i j : ℕ} {rows : List ℕ}
      (h : Reached form ε (.exchanging (i :: rows)) t)
      (hart : t.basis[i]?.any form.isArtificial = true)
      (hj : t.replacementColumn form ε i = some j) : Move form ε t (some (i, j)) (t.pivot i j)
  /-- The turn to phase two. -/
  | installed {t : Tableau α} (h : Reached form ε (.exchanging []) t) :
      Move form ε t none (t.installPhaseTwo form)

theorem Move.reached {form : StandardForm α} {ε : α} {t t' : Tableau α} {pivot : Option (ℕ × ℕ)}
    (h : Move form ε t pivot t') : ∃ stage, Reached form ε stage t' := by
  cases h with
  | chosen h hj hi => exact ⟨_, h.pivot hj hi⟩
  | exchanged h hart hj => exact ⟨_, h.exchange hart hj⟩
  | installed h => exact ⟨_, h.install⟩

/-! ## What a run keeps -/

namespace Run

variable {s : Settings α} {form : StandardForm α} {ε : α} {stage : Stage} {r r' : Run α}
  {pivot : Option (ℕ × ℕ)}

/-- That the kept steps are the tableaus gone through, up to the present one. -/
structure Kept (form : StandardForm α) (ε : α) (r : Run α) : Prop where
  reached : ∀ step ∈ r.steps.toList, ∃ t stage iteration pivot,
    Reached form ε stage t ∧ step = t.toStep iteration pivot
  isChain : r.steps.toList.IsChain fun a b ↦ Move form ε a.tableau b.pivot b.tableau
  /-- The step kept last is the present tableau. -/
  last : ∀ step ∈ r.steps.toList.getLast?, step.tableau = r.tableau

omit [Scalar α] in
theorem steps_record (htrace : s.trace = true) (pivot : Option (ℕ × ℕ)) (r : Run α) :
    (r.record s pivot).steps = r.steps.push (r.tableau.toStep r.iterations pivot) := by
  rw [record, if_pos htrace]

theorem Kept.record (htrace : s.trace = true) (h : r.Kept form ε) (hsteps : r'.steps = r.steps)
    (hmove : Move form ε r.tableau pivot r'.tableau) : (r'.record s pivot).Kept form ε := by
  have hlist : (r'.record s pivot).steps.toList
      = r.steps.toList ++ [r'.tableau.toStep r'.iterations pivot] := by
    rw [steps_record htrace, hsteps, Array.toList_push]
  refine ⟨fun step hstep ↦ ?_, ?_, fun step hstep ↦ ?_⟩
  · rw [hlist, List.mem_append, List.mem_singleton] at hstep
    rcases hstep with hstep | rfl
    · exact h.reached step hstep
    · obtain ⟨stage, hr⟩ := hmove.reached
      exact ⟨_, stage, _, _, hr, rfl⟩
  · rw [hlist, List.isChain_append]
    refine ⟨h.isChain, List.isChain_singleton _, fun a ha b hb ↦ ?_⟩
    obtain rfl : r'.tableau.toStep r'.iterations pivot = b := by simpa using hb
    rw [h.last a ha, Tableau.tableau_toStep]
    exact hmove
  · rw [hlist, List.getLast?_concat] at hstep
    obtain rfl : r'.tableau.toStep r'.iterations pivot = step := by simpa using hstep
    rw [Tableau.tableau_toStep, tableau_record]

/-- **A traced run keeps the tableaus it goes through.** -/
theorem Passes.kept (htrace : s.trace = true) (h : Passes s form stage r) :
    r.Kept form s.tolerance := by
  induction h with
  | start =>
    have hlist : (Run.start s form).steps.toList = [(Tableau.initial form).toStep 0 none] := by
      rw [Run.start, steps_record htrace]
      rfl
    refine ⟨fun step hstep ↦ ?_, ?_, fun step hstep ↦ ?_⟩
    · rw [hlist, List.mem_singleton] at hstep
      exact ⟨_, _, _, _, .initial, hstep⟩
    · rw [hlist]
      exact List.isChain_singleton _
    · rw [hlist] at hstep
      obtain rfl : (Tableau.initial form).toStep 0 none = step := by simpa using hstep
      rw [Tableau.tableau_toStep, tableau_start]
  | pivot h hj hi _ ih => exact ih.record htrace rfl (.chosen h.reached hj hi)
  | turn _ _ _ ih => exact ih
  | pass _ _ ih => exact ih
  | redundant _ _ _ ih => exact ⟨ih.reached, ih.isChain, ih.last⟩
  | exchange h hart hj _ ih => exact ih.record htrace rfl (.exchanged h.reached hart hj)
  | enterPhaseTwo h ih => exact ih.record htrace rfl (.installed h.reached)

end Run

/-! ## Trails -/

/-- The tableaus that a solve passes through, be it to an end or to the pivot limit: those its run
keeps when it is asked for a trace. -/
def trail (s : Settings α) (form : StandardForm α) : List (Step α) :=
  match Run.complete { s with trace := true } form with
  | .error r => r.steps.toList
  | .ok (r, _) => r.steps.toList

section Trail

variable {s : Settings α} {form : StandardForm α}

theorem exists_passes_trail (s : Settings α) (form : StandardForm α) :
    ∃ stage, ∃ r : Run α, Run.Passes { s with trace := true } form stage r
      ∧ trail s form = r.steps.toList := by
  have hends := Run.endsOrStops_complete { s with trace := true } form
  rw [trail]
  cases hrun : Run.complete { s with trace := true } form with
  | error r =>
    rw [hrun] at hends
    obtain ⟨stage, hr⟩ := hends
    exact ⟨stage, r, hr, rfl⟩
  | ok result =>
    rw [hrun] at hends
    obtain ⟨-, stage, events, hr⟩ := hends
    exact ⟨stage, _, hr, rfl⟩

theorem exists_kept_trail (s : Settings α) (form : StandardForm α) :
    ∃ r : Run α, r.Kept form s.tolerance ∧ trail s form = r.steps.toList := by
  obtain ⟨stage, r, hr, hsteps⟩ := exists_passes_trail s form
  exact ⟨r, Run.Passes.kept (s := { s with trace := true }) rfl hr, hsteps⟩

/-- **Every step of a trail** keeps a tableau that the solve reaches. -/
theorem exists_reached_of_mem_trail {step : Step α} (h : step ∈ trail s form) :
    ∃ t stage iteration pivot,
      Reached form s.tolerance stage t ∧ step = t.toStep iteration pivot := by
  obtain ⟨r, hkept, hsteps⟩ := exists_kept_trail s form
  exact hkept.reached step (hsteps ▸ h)

/-- **Neighbouring steps of a trail** are one move apart. -/
theorem move_of_getElem?_trail {k : ℕ} {a b : Step α} (ha : (trail s form)[k]? = some a)
    (hb : (trail s form)[k + 1]? = some b) : Move form s.tolerance a.tableau b.pivot b.tableau := by
  obtain ⟨r, hkept, hsteps⟩ := exists_kept_trail s form
  rw [hsteps] at ha hb
  obtain ⟨hk, rfl⟩ := List.getElem?_eq_some_iff.mp ha
  obtain ⟨hk', rfl⟩ := List.getElem?_eq_some_iff.mp hb
  exact hkept.isChain.getElem k hk'

end Trail

end LinearProgramming
