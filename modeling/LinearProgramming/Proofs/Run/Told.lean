import LinearProgramming.Proofs.Run.Carried
import LinearProgramming.Proofs.Run.Counted
import LinearProgramming.Proofs.Run.Replay
import Mathlib.Data.List.Forall2

/-!
# What is told of the pivots

A run leaves two records of its pivots. The events tell of each pivot before the tableau is changed,
and name the variable that is about to leave. The steps keep each tableau after it has been made,
and name the cell only. The two agree: the events that a listener to pivots hears are as many as the
steps that pivot, in the same order, and each tells of the pivot from one step to the next.

Neither the exchange of artificial variables nor the pivot limit makes a difference to this, since
all pivots are made in one place, and a run that is stopped is one on the way.
-/

namespace LinearProgramming

variable {α : Type}

/-! ## The two records -/

/-- The events of a level, in order. -/
def heard (level : Level) (events : List (Event α)) : List (Event α) :=
  events.filter (·.level = level)

theorem heard_concat (level : Level) (events : List (Event α)) (event : Event α) :
    heard level (events ++ [event])
      = heard level events ++ if event.level = level then [event] else [] := by
  rw [heard, heard, List.filter_append, List.filter_singleton]
  split_ifs with h <;> simp [h]

/-- The events that tell of a pivot are those of the lowest level. -/
theorem Event.level_ne_trace {event : Event α} (h : event.number? = none) :
    event.level ≠ .trace := by
  cases event <;> simp_all [number?, level]

namespace Step

/-- The pairs of neighbouring steps of which the second one is made by a pivot. -/
def pivots (steps : List (Step α)) : List (Step α × Step α) :=
  (steps.zip steps.tail).filter (·.2.pivot.isSome)

/-- That an event tells of the pivot that leads from one step to the next: what number it has, the
column that enters, the column that was basic in the row, and the row. -/
inductive Told (a b : Step α) : Event α → Prop
  | pivoted {i j c : ℕ} (hpivot : b.pivot = some (i, j)) (hbasic : a.basis[i]? = some c) :
      Told a b (.pivoted b.iteration j c i)

variable {a b : Step α} {steps : List (Step α)}

theorem zip_tail_concat (hlast : steps.getLast? = some a) (b : Step α) :
    (steps ++ [b]).zip (steps ++ [b]).tail = steps.zip steps.tail ++ [(a, b)] := by
  induction steps with
  | nil => cases hlast
  | cons first rest ih =>
    rcases rest with _ | ⟨second, rest⟩
    · obtain rfl : first = a := by simpa using hlast
      rfl
    · rw [List.getLast?_cons_cons] at hlast
      exact congrArg ((first, second) :: ·) (ih hlast)

theorem pivots_concat (hlast : steps.getLast? = some a) (b : Step α) :
    pivots (steps ++ [b]) = pivots steps ++ if b.pivot.isSome then [(a, b)] else [] := by
  rw [pivots, pivots, zip_tail_concat hlast, List.filter_append, List.filter_singleton]
  split_ifs with h <;> simp [h]

end Step

/-! ## What a run tells -/

namespace Run

variable [Scalar α] {s : Settings α} {form : StandardForm α} {stage : Stage} {r r' : Run α}
  {status : Status} {i j : ℕ}

/-- That what is heard of the pivots of a run are the pivots that it has kept. -/
def TellsPivots (r : Run α) : Prop :=
  List.Forall₂ (fun event steps ↦ Step.Told steps.1 steps.2 event)
    (heard .trace r.events.toList) (Step.pivots r.steps.toList)

/-- That what is heard of the pivots of a run has the numbers from one to the number of pivots. -/
def NumbersPivots (r : Run α) : Prop :=
  (heard .trace r.events.toList).map Event.number? = (List.range r.iterations).map (some <| · + 1)

omit [Scalar α] in
theorem heard_report {event : Event α} (h : event.number? = none) (r : Run α) :
    heard .trace (r.report event).events.toList = heard .trace r.events.toList := by
  rw [report, Array.toList_push, heard_concat, if_neg (Event.level_ne_trace h), List.append_nil]

theorem heard_enterPhaseTwo (s : Settings α) (form : StandardForm α) (r : Run α) :
    heard .trace (r.enterPhaseTwo s form).events.toList = heard .trace r.events.toList := by
  rw [enterPhaseTwo, events_record]
  have hturn : (Event.phaseOneComplete r.iterations : Event α).number? = none := rfl
  exact heard_report hturn r

theorem heard_pivot (s : Settings α) (i j : ℕ) (r : Run α) :
    heard .trace (r.pivot s i j).events.toList = heard .trace r.events.toList
      ++ [.pivoted (r.iterations + 1) j (r.tableau.basis[i]?.getD 0) i] := by
  rw [Run.pivot, events_record, Array.toList_push, heard_concat]
  rfl

theorem heard_start (s : Settings α) (form : StandardForm α) :
    heard .trace (start s form).events.toList = [] := by
  rw [start, events_record]
  rfl

/-! ### Numbers -/

theorem NumbersPivots.pivot (h : r.NumbersPivots) : (r.pivot s i j).NumbersPivots := by
  rw [NumbersPivots, heard_pivot, iterations_pivot, List.map_append, h, List.range_succ,
    List.map_append]
  rfl

/-- **Pivots are numbered** in the order in which they are made. -/
theorem Passes.numbersPivots (h : Passes s form stage r) : r.NumbersPivots := by
  induction h with
  | start =>
    rw [NumbersPivots, heard_start, iterations_start]
    rfl
  | pivot _ _ _ _ ih => exact ih.pivot
  | turn _ _ _ ih => exact ih
  | pass _ _ ih => exact ih
  | redundant _ _ _ ih =>
    rw [NumbersPivots, heard_report rfl]
    exact ih
  | exchange _ _ _ _ ih => exact ih.pivot
  | enterPhaseTwo _ ih =>
    rw [NumbersPivots, heard_enterPhaseTwo, iterations_enterPhaseTwo]
    exact ih

omit [Scalar α] in
theorem NumbersPivots.length_heard (h : r.NumbersPivots) :
    (heard .trace r.events.toList).length = r.iterations := by
  have hlength := congrArg List.length h
  rwa [List.length_map, List.length_map, List.length_range] at hlength

omit [Scalar α] in
theorem NumbersPivots.number?_eq (h : r.NumbersPivots) {k : ℕ} {event : Event α}
    (hevent : (heard .trace r.events.toList)[k]? = some event) : event.number? = some (k + 1) := by
  have hk : k < r.iterations := by
    rw [← h.length_heard]
    exact (List.getElem?_eq_some_iff.mp hevent).1
  have hnumber := congrArg (·[k]?) h
  simpa [hevent, hk] using hnumber

/-! ### Both records -/

/-- **A pivot is told and kept.** What the event names as leaving is read from the tableau before
the pivot, which is the step kept last. -/
theorem TellsPivots.pivot (htrace : s.trace = true) (h : r.TellsPivots) (hkept : r.Replays form)
    (hi : i < r.tableau.numRows) : (r.pivot s i j).TellsPivots := by
  obtain ⟨last, hlast⟩ := hkept.last
  have hsteps : (r.pivot s i j).steps.toList = r.steps.toList
      ++ [(r.tableau.pivot i j).toStep (r.iterations + 1) (some (i, j))] := by
    rw [Run.pivot, steps_record htrace, Array.toList_push]
  obtain ⟨c, hc⟩ : ∃ c, r.tableau.basis[i]? = some c :=
    ⟨_, List.getElem?_eq_getElem (by rwa [Tableau.basis, List.length_map])⟩
  rw [TellsPivots, heard_pivot, hsteps, Step.pivots_concat hlast, hc]
  exact List.rel_append h (.cons (.pivoted rfl hc) .nil)

/-- **What is told is what is kept**, at every run of a traced solve. -/
theorem Passes.tellsPivots (htrace : s.trace = true) (h : Passes s form stage r) :
    r.TellsPivots := by
  have hrow : ∀ {t t' : Tableau α} {i j : ℕ}, t.pivot? i j = some t' → i < t.numRows := by
    intro t t' i j ht
    rw [Tableau.pivot?] at ht
    split_ifs at ht with hinside
    exact hinside.1
  induction h with
  | start =>
    have hsteps : (Run.start s form).steps.toList = [(Tableau.initial form).toStep 0 none] := by
      rw [Run.start, steps_record htrace]
      rfl
    rw [TellsPivots, heard_start, hsteps]
    exact .nil
  | pivot h hj hi _ ih =>
    exact ih.pivot htrace (h.replays htrace) (hrow (Tableau.pivot?_of_chosen hj hi))
  | turn _ _ _ ih => exact ih
  | pass _ _ ih => exact ih
  | redundant _ _ _ ih =>
    rw [TellsPivots, heard_report rfl]
    exact ih
  | exchange h hart hj _ ih =>
    exact ih.pivot htrace (h.replays htrace) (hrow (Tableau.pivot?_of_exchanged hart hj))
  | enterPhaseTwo h ih =>
    obtain ⟨last, hlast⟩ := (h.replays htrace).last
    rw [TellsPivots, heard_enterPhaseTwo, Run.enterPhaseTwo, steps_record htrace,
      Array.toList_push, Step.pivots_concat hlast]
    exact (List.append_nil _).symm ▸ ih

/-! ## Where a solve ends or is stopped -/

theorem Closes.heard_eq (h : Closes s form stage r r' status) :
    heard .trace r'.events.toList = heard .trace r.events.toList ∧ r'.steps = r.steps
      ∧ r'.iterations = r.iterations := by
  rcases h with _ | _ | _ | _
  · exact ⟨rfl, rfl, rfl⟩
  · exact ⟨rfl, rfl, rfl⟩
  · exact ⟨heard_report rfl r, rfl, rfl⟩
  · exact ⟨heard_report rfl r, rfl, rfl⟩

theorem le_iterations_of_optimize (h : r.optimize s form = .error r') :
    s.maxIterations ≤ r'.iterations := by
  have hwithin : ∀ (budget : ℕ) (r : Run α), optimizeWithin s form budget r = .error r' →
      r.iterations + budget ≤ r'.iterations := by
    intro budget r h
    fun_induction optimizeWithin s form budget r with
    | case1 => cases h
    | case2 => cases h
    | case3 r => cases h; exact Nat.le_refl _
    | case4 r j hj i hi budget ih =>
      have hle := ih h
      rw [iterations_pivot] at hle
      omega
  have hle := hwithin _ r h
  omega

theorem le_iterations_of_driveOutOf {rows : List ℕ} (h : driveOutOf s form rows r = .error r') :
    s.maxIterations ≤ r'.iterations := by
  induction rows generalizing r with
  | nil => cases h
  | cons i rows ih =>
    rw [driveOutOf] at h
    split at h
    · split at h
      · exact ih h
      · split_ifs at h with hlimit
        · exact ih h
        · cases h
          exact Nat.not_lt.mp hlimit
    · exact ih h

theorem le_iterations_of_phaseTwo (h : r.phaseTwo s form = .error r') :
    s.maxIterations ≤ r'.iterations := by
  rw [phaseTwo] at h
  split at h
  · rename_i hopt
    cases h
    exact le_iterations_of_optimize hopt
  · cases h
  · cases h

theorem le_iterations_of_phaseOne (h : r.phaseOne s form = .error r') :
    s.maxIterations ≤ r'.iterations := by
  rw [phaseOne] at h
  split at h
  · rename_i hopt
    cases h
    exact le_iterations_of_optimize hopt
  · cases h
  · split_ifs at h
    split at h
    · rename_i hdrive
      cases h
      exact le_iterations_of_driveOutOf hdrive
    · exact le_iterations_of_phaseTwo h

/-- **A solve that is stopped** has made as many pivots as the limit allows. -/
theorem iterations_eq_of_complete (h : complete s form = .error r) :
    r.iterations = s.maxIterations := by
  have hends := endsOrStops_complete s form
  rw [h] at hends
  obtain ⟨stage, hr⟩ := hends
  refine Nat.le_antisymm hr.iterations_le ?_
  rw [complete] at h
  split at h
  · rename_i r' hphases
    cases h
    rw [phases] at hphases
    split at hphases
    · exact le_iterations_of_phaseOne hphases
    · exact le_iterations_of_phaseTwo hphases
  · cases h

/-- The run that a solve comes to, be it to an end or to the pivot limit. -/
def last (s : Settings α) (form : StandardForm α) : Run α :=
  match complete s form with
  | .error r => r
  | .ok (r, _) => r

theorem untraced_last (s : Settings α) (form : StandardForm α) (trace : Bool) :
    (last { s with trace := trace } form).untraced = (last s form).untraced := by
  have hcomplete := untraced_complete s form trace
  rw [last, last]
  rcases hx : complete { s with trace := trace } form with r | ⟨r, status⟩ <;>
    rcases hy : complete s form with r' | ⟨r', status'⟩ <;>
      simp_all [carryOutcome]

/-- But for events that are no pivots, the run that a solve comes to is one on the way. -/
theorem exists_passes_last (s : Settings α) (form : StandardForm α) :
    ∃ stage q, Passes s form stage q
      ∧ heard .trace (last s form).events.toList = heard .trace q.events.toList
      ∧ (last s form).steps = q.steps ∧ (last s form).iterations = q.iterations := by
  rw [last]
  cases hrun : complete s form with
  | error r =>
    have hends := endsOrStops_complete s form
    rw [hrun] at hends
    obtain ⟨stage, hr⟩ := hends
    exact ⟨stage, r, hr, rfl, rfl, rfl⟩
  | ok result =>
    obtain ⟨r, status⟩ := result
    obtain ⟨r', hends, hle, rfl⟩ := complete_eq_ok_iff.mp hrun
    obtain ⟨stage, q, hq, hcloses⟩ := hends.exists_closes .start hle
    obtain ⟨hheard, hsteps, hiterations⟩ := hcloses.heard_eq
    exact ⟨stage, q, hq, (heard_report rfl r').trans hheard, hsteps, hiterations⟩

theorem numbersPivots_last (s : Settings α) (form : StandardForm α) :
    (last s form).NumbersPivots := by
  obtain ⟨stage, q, hq, hheard, -, hiterations⟩ := exists_passes_last s form
  rw [NumbersPivots, hheard, hiterations]
  exact hq.numbersPivots

/-- **What a solve tells of its pivots** is what a trace of it would keep. -/
theorem forall₂_told_trail (s : Settings α) (form : StandardForm α) :
    List.Forall₂ (fun event steps ↦ Step.Told steps.1 steps.2 event)
      (heard .trace (last s form).events.toList) (Step.pivots (trail s form)) := by
  have huntraced := congrArg Run.events (untraced_last s form true)
  have hevents : (last s form).events = (last { s with trace := true } form).events :=
    huntraced.symm
  have hsteps : trail s form = (last { s with trace := true } form).steps.toList := by
    rw [trail, last]
    rcases complete { s with trace := true } form with _ | _ <;> rfl
  obtain ⟨stage, q, hq, hheard, hkept, -⟩ := exists_passes_last { s with trace := true } form
  rw [hevents, hsteps, hheard, hkept]
  exact hq.tellsPivots rfl

end Run

end LinearProgramming
