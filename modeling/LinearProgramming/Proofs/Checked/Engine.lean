import LinearProgramming.Proofs.Checked.PivotRule
import LinearProgramming.Proofs.Run.Concludes
import LinearProgramming.Proofs.Tableau.Choice

/-!
# Checked runs

A solve in progress as a program carries it out: a sheet, a count of pivots that has to fit a word,
and a loop of rounds. A round makes one pivot, or turns to phase two with all the exchanges that
takes, or ends the solve.

How many rounds there may be is fixed beforehand: one for each pivot the limit allows, one for the
turn to phase two, and a last one. Running out of rounds counts as a failure like any other, and no
solve runs out of them: the limit alone sees to that, whatever the numbers do.
-/

namespace LinearProgramming

open Checked

variable {α : Type} [Scalar α]

/-- **Every tableau of a solve has the shape of the first one.** -/
theorem Reached.shaped {ε : α} {stage : Stage} {t : Tableau α} {p : Problem α} (hp : p.WellFormed)
    (h : Reached (.ofWellFormed p) ε stage t) :
    t.Shaped (StandardForm.ofWellFormed p).numColumns := by
  induction h with
  | initial => exact Tableau.shaped_initial hp
  | pivot _ hj hi ih =>
    obtain ⟨a, ha, -⟩ := Tableau.leavingRow_eq_some hi
    exact ih.pivot ha (ih.numColumns_eq ▸ (Tableau.enteringColumn_eq_some hj).1)
  | turn _ _ _ ih => exact ih
  | pass _ _ ih => exact ih
  | exchange _ hart hj ih =>
    obtain ⟨a, ha, -⟩ := Tableau.exists_row_of_basis_any hart
    exact ih.pivot ha (ih.numColumns_eq ▸ (Tableau.mem_of_replacementColumn_eq_some hj).1)
  | install _ ih => exact ih.installPhaseTwo

omit [Scalar α] in
/-- A sheet as a step of a trace. -/
def Sheet.toStep (s : Sheet α) (iteration : ℕ) (pivot : Option (ℕ × ℕ)) : Step α where
  phase := s.phase
  iteration := iteration
  pivot := pivot
  basis := s.basis
  grid := s.grid

/-- A solve in progress, its tableau as it is stored. -/
structure Engine (α : Type) where
  sheet : Sheet α
  iterations : ℕ
  events : Array (Event α)
  steps : Array (Step α)

namespace Engine

variable (s : Settings α) (form : StandardForm α)

omit [Scalar α] in
def report (event : Event α) (e : Engine α) : Engine α := { e with events := e.events.push event }

omit [Scalar α] in
def record (pivot : Option (ℕ × ℕ)) (e : Engine α) : Engine α :=
  if s.trace then { e with steps := e.steps.push (e.sheet.toStep e.iterations pivot) } else e

def start : Option (Engine α) := do
  return record s none
    { sheet := ← Sheet.initial form
      iterations := 0
      events := #[.started form.numStructural form.rows.length form.numAuxiliary form.numArtificial]
      steps := #[] }

/-- Pivot on row `i` and column `j`, if the limit allows another pivot. -/
def pivot (i j : ℕ) (e : Engine α) : Option (Except (Engine α) (Engine α)) :=
  if s.maxIterations ≤ e.iterations then some (.error e)
  else do
    let count ← next e.iterations
    let leaving ← e.sheet.basis[i]?
    return .ok <| record s (some (i, j))
      { sheet := ← e.sheet.pivot i j
        iterations := count
        events := e.events.push (.pivoted count j leaving i)
        steps := e.steps }

def driveOut : List ℕ → Engine α → Option (Except (Engine α) (Engine α))
  | [], e => some (.ok e)
  | i :: rest, e => do
    if form.isArtificial (← e.sheet.basis[i]?) then
      match ← e.sheet.replacementColumn form s.tolerance i with
      | none => driveOut rest (e.report (.rowRedundant i))
      | some j =>
        match ← e.pivot s i j with
        | .error e => return .error e
        | .ok e => driveOut rest e
    else driveOut rest e

def finishPhaseOne (e : Engine α) : Option (Except (Engine α) (Engine α × (Phase ⊕ Status))) := do
  let residual ← e.sheet.objectiveValue
  if s.tolerance < Scalar.abs residual then
    return .ok (e.report (.artificialsRemain (-residual)), .inr .infeasible)
  else
    match ← e.driveOut s form (List.range e.sheet.numRows) with
    | .error e => return .error e
    | .ok e =>
      return .ok (record s none
        { e with
          sheet := ← e.sheet.installPhaseTwo form
          events := e.events.push (.phaseOneComplete e.iterations) }, .inl .two)

/-- A round: a pivot, the turn to phase two, or the end. -/
def step (phase : Phase) (e : Engine α) :
    Option (Except (Engine α) (Engine α × (Phase ⊕ Status))) := do
  match ← e.sheet.enteringColumn form s.tolerance with
  | none =>
    match phase with
    | .one => e.finishPhaseOne s form
    | .two => return .ok (e, .inr .optimal)
  | some j =>
    match ← e.sheet.leavingRow s.tolerance j with
    | none =>
      match phase with
      | .one => return .ok (e.report (.phaseOneUnbounded j), .inr .infeasible)
      | .two => return .ok (e, .inr .unbounded)
    | some i =>
      match ← e.pivot s i j with
      | .error e => return .error e
      | .ok e => return .ok (e, .inl phase)

def rounds : ℕ → Phase → Engine α → Option (Except (Engine α) (Engine α × Status))
  | 0, _, _ => none
  | n + 1, phase, e => do
    match ← e.step s form phase with
    | .error e => return .error e
    | .ok (e, .inl phase) => rounds n phase e
    | .ok (e, .inr status) => return .ok (e, status)

def complete : Option (Except (Engine α) (Engine α × Status)) := do
  let e ← start s form
  match ← rounds s form (s.maxIterations + 2) e.sheet.phase e with
  | .error e => return .error e
  | .ok (e, status) => return .ok (e.report (.finished status e.iterations), status)

end Engine

namespace Run

variable {s : Settings α} {p : Problem α} {r : Run α} {i j : ℕ} {rows : List ℕ} {phase : Phase}

omit [Scalar α] in
/-- A run with its tableau as it is stored. -/
def engine (r : Run α) : Engine α := ⟨r.tableau.sheet, r.iterations, r.events, r.steps⟩

section

omit [Scalar α]

@[simp] theorem sheet_engine : r.engine.sheet = r.tableau.sheet := rfl

@[simp] theorem iterations_engine : r.engine.iterations = r.iterations := rfl

@[simp] theorem events_engine : r.engine.events = r.events := rfl

@[simp] theorem steps_engine : r.engine.steps = r.steps := rfl

end

omit [Scalar α] in
theorem engine_record (s : Settings α) (pivot : Option (ℕ × ℕ)) (r : Run α) :
    (r.record s pivot).engine = r.engine.record s pivot := by
  rw [record, Engine.record]
  split_ifs <;> rfl

/-- What part of a solve hands back, with the runs in it as they are stored. -/
def stored {β γ : Type} (f : β → γ) : Except (Run α) β → Except (Engine α) γ
  | .error r => .error r.engine
  | .ok b => .ok (f b)

theorem start_engine (hp : p.WellFormed) :
    Engine.start s (.ofWellFormed p) = some (start s (.ofWellFormed p)).engine := by
  rw [Engine.start, Tableau.initial_sheet hp, start, engine_record]
  rfl

variable (hp : p.WellFormed) (hmax : s.maxIterations < 2 ^ 64)

include hmax in
/-- **A pivot that is made** finds its cells, and the count of pivots has room for it. -/
theorem pivot_engine {n : ℕ} (h : r.tableau.Shaped n) {a : TableauRow α}
    (ha : r.tableau.rows[i]? = some a) (hj : j < n) (hlt : r.iterations < s.maxIterations) :
    r.engine.pivot s i j = some (.ok (r.pivot s i j).engine) := by
  have hcount : next r.iterations = some (r.iterations + 1) := next_of_lt (by omega)
  have hleaving : r.tableau.basis[i]? = some a.basic := Tableau.getElem?_basis ha
  have hsheet : r.tableau.sheet.pivot i j = some (r.tableau.pivot i j).sheet :=
    Tableau.pivot_sheet h ha hj
  rw [Engine.pivot, iterations_engine, if_neg (not_le.mpr hlt)]
  simp only [sheet_engine, events_engine, steps_engine, Tableau.basis_sheet,
    hcount, hleaving, hsheet, Option.bind_eq_bind, Option.bind_some]
  rw [pivot, engine_record, hleaving]
  rfl

/-- **A pivot beyond the limit** is not begun. -/
theorem pivot_engine_of_le (hle : s.maxIterations ≤ r.iterations) :
    r.engine.pivot s i j = some (.error r.engine) := if_pos hle

include hp hmax in
/-- **The exchanges** go as they do on the tableau. -/
theorem driveOut_engine (hr : Passes s (.ofWellFormed p) (.exchanging rows) r)
    (hrows : ∀ i ∈ rows, i < (StandardForm.ofWellFormed p).rows.length) :
    r.engine.driveOut s (.ofWellFormed p) rows
      = some (stored engine (driveOutOf s (.ofWellFormed p) rows r)) := by
  induction rows generalizing r with
  | nil => rfl
  | cons i rows ih =>
    have hshaped := hr.reached.shaped hp
    have hi : i < r.tableau.numRows := hr.reached.numRows_eq ▸ hrows i List.mem_cons_self
    have ha : r.tableau.rows[i]? = some r.tableau.rows[i] := List.getElem?_eq_getElem hi
    have hrest : ∀ i ∈ rows, i < (StandardForm.ofWellFormed p).rows.length := fun i hi ↦
      hrows i (List.mem_cons_of_mem _ hi)
    have hbasic := Tableau.getElem?_basis ha
    have hany : r.tableau.basis[i]?.any (StandardForm.ofWellFormed p).isArtificial
        = (StandardForm.ofWellFormed p).isArtificial r.tableau.rows[i].basic := by
      rw [hbasic, Option.any_some]
    rw [Engine.driveOut, driveOutOf, hany]
    simp only [sheet_engine, Tableau.basis_sheet, hbasic,
      Tableau.replacementColumn_sheet hshaped ha, Option.bind_eq_bind, Option.bind_some]
    by_cases hart : (StandardForm.ofWellFormed p).isArtificial r.tableau.rows[i].basic = true
    · rw [if_pos hart, if_pos hart]
      rw [← hany] at hart
      cases hj : r.tableau.replacementColumn (.ofWellFormed p) s.tolerance i with
      | none => exact ih (hr.redundant hart hj) hrest
      | some j =>
        by_cases hlt : r.iterations < s.maxIterations
        · have hcolumn := (Tableau.mem_of_replacementColumn_eq_some hj).1
          rw [hshaped.numColumns_eq] at hcolumn
          simp only [pivot_engine hmax hshaped ha hcolumn hlt, if_pos hlt, Option.bind_some]
          exact ih (hr.exchange hart hj hlt) hrest
        · simp only [pivot_engine_of_le (not_lt.mp hlt), if_neg hlt, Option.bind_some]
          rfl
    · rw [if_neg hart, if_neg hart]
      rw [← hany] at hart
      exact ih (hr.pass hart) hrest

theorem iterations_le_of_driveOutOf {form : StandardForm α} {q : Run α}
    (h : driveOutOf s form rows r = .ok q) : r.iterations ≤ q.iterations := by
  induction rows generalizing r with
  | nil =>
    obtain rfl := Except.ok.inj h
    exact Nat.le_refl _
  | cons i rows ih =>
    rw [driveOutOf] at h
    split at h
    · split at h
      · exact ih (r := r.report (.rowRedundant i)) h
      · split at h
        · have hle := ih h
          rw [iterations_pivot] at hle
          exact Nat.le_of_succ_le hle
        · cases h
    · exact ih h

include hp hmax in
theorem finishPhaseOne_engine (hr : Passes s (.ofWellFormed p) (.optimizing .one) r)
    (hstop : r.tableau.enteringColumn (.ofWellFormed p) s.tolerance = none) :
    r.engine.finishPhaseOne s (.ofWellFormed p)
      = some (if s.tolerance < Scalar.abs r.tableau.objectiveValue then
          .ok ((r.report (.artificialsRemain (-r.tableau.objectiveValue))).engine, .inr .infeasible)
        else stored (fun q ↦ ((q.enterPhaseTwo s (.ofWellFormed p)).engine, .inl .two))
          (driveOutOf s (.ofWellFormed p) (List.range r.tableau.numRows) r)) := by
  have hshaped := hr.reached.shaped hp
  rw [Engine.finishPhaseOne, sheet_engine, Tableau.objectiveValue_sheet hshaped]
  simp only [Tableau.numRows_sheet, Option.bind_eq_bind, Option.bind_some]
  by_cases hlarge : s.tolerance < Scalar.abs r.tableau.objectiveValue
  · rw [if_pos hlarge, if_pos hlarge]
    rfl
  · have hturn := hr.turn hstop hlarge
    have hdrive := passes_of_driveOutOf hturn
    rw [if_neg hlarge, if_neg hlarge, driveOut_engine hp hmax hturn fun i hi ↦ by
      rw [← hr.reached.numRows_eq]
      exact List.mem_range.mp hi]
    cases hq : driveOutOf s (.ofWellFormed p) (List.range r.tableau.numRows) r with
    | error q => rfl
    | ok q =>
      rw [hq] at hdrive
      have hinstall := Tableau.installPhaseTwo_sheet (hdrive.reached.shaped hp)
      simp only [stored, sheet_engine, hinstall, Option.bind_some, enterPhaseTwo, engine_record]
      rfl

/-! ## Rounds -/

omit [Scalar α] in
/-- How many more rounds a solve can take: the pivots it has left, the turn if it is to come, and
the round that ends it. -/
def roundsLeft (s : Settings α) (phase : Phase) (r : Run α) : ℕ :=
  s.maxIterations - r.iterations + if phase = .one then 2 else 1

/-- What a round makes of a run in a phase: it stops at the limit or ends as the solve does, or the
solve is continued in a run that has fewer rounds left. -/
inductive Round (s : Settings α) (form : StandardForm α) (phase : Phase) (r : Run α) :
    Except (Run α) (Run α × (Phase ⊕ Status)) → Prop
  | stops {q : Run α} (h : resume s form (.optimizing phase) r = .error q) :
      Round s form phase r (.error q)
  | ends {q : Run α} {status : Status}
      (h : resume s form (.optimizing phase) r = .ok (q, status)) :
      Round s form phase r (.ok (q, .inr status))
  | continues {q : Run α} {later : Phase} (hq : Passes s form (.optimizing later) q)
      (h : resume s form (.optimizing phase) r = resume s form (.optimizing later) q)
      (hlt : roundsLeft s later q < roundsLeft s phase r) :
      Round s form phase r (.ok (q, .inl later))

include hp hmax in
theorem exists_round_finishPhaseOne (hr : Passes s (.ofWellFormed p) (.optimizing .one) r)
    (hj : r.tableau.enteringColumn (.ofWellFormed p) s.tolerance = none) :
    ∃ outcome, Round s (.ofWellFormed p) .one r outcome
      ∧ r.engine.finishPhaseOne s (.ofWellFormed p)
        = some (stored (fun (q, next) ↦ (q.engine, next)) outcome) := by
  rw [finishPhaseOne_engine hp hmax hr hj]
  by_cases hlarge : s.tolerance < Scalar.abs r.tableau.objectiveValue
  · rw [if_pos hlarge]
    refine ⟨_, .ends ?_, rfl⟩
    rw [resume, phaseOne, optimize_of_noEntering hj]
    exact if_pos hlarge
  · have hdrive := passes_of_driveOutOf (hr.turn hj hlarge)
    rw [if_neg hlarge]
    cases hq : driveOutOf s (.ofWellFormed p) (List.range r.tableau.numRows) r with
    | error q =>
      refine ⟨.error q, .stops ?_, rfl⟩
      rw [resume_turn hj hlarge, resume, hq]
    | ok q =>
      rw [hq] at hdrive
      refine ⟨_, .continues hdrive.enterPhaseTwo ?_ ?_, rfl⟩
      · rw [resume_turn hj hlarge]
        simp only [resume, hq]
      · have hle := iterations_le_of_driveOutOf hq
        rw [roundsLeft, roundsLeft, iterations_enterPhaseTwo, if_pos rfl, if_neg (by decide)]
        omega

include hp hmax in
/-- **A round** does what the solve does next. -/
theorem exists_round_step (hr : Passes s (.ofWellFormed p) (.optimizing phase) r) :
    ∃ outcome, Round s (.ofWellFormed p) phase r outcome
      ∧ r.engine.step s (.ofWellFormed p) phase
        = some (stored (fun (q, next) ↦ (q.engine, next)) outcome) := by
  have hshaped := hr.reached.shaped hp
  rw [Engine.step.eq_def, sheet_engine, Tableau.enteringColumn_sheet hshaped]
  simp only [Option.bind_eq_bind, Option.bind_some]
  cases hj : r.tableau.enteringColumn (.ofWellFormed p) s.tolerance with
  | none =>
    cases phase with
    | one => exact exists_round_finishPhaseOne hp hmax hr hj
    | two =>
      refine ⟨.ok (r, .inr .optimal), .ends ?_, rfl⟩
      rw [resume, phaseTwo, optimize_of_noEntering hj]
  | some j =>
    have hcolumn : j < (StandardForm.ofWellFormed p).numColumns :=
      hshaped.numColumns_eq ▸ (Tableau.enteringColumn_eq_some hj).1
    simp only [Tableau.leavingRow_sheet hshaped hcolumn, Option.bind_some]
    cases hi : r.tableau.leavingRow s.tolerance j with
    | none =>
      cases phase with
      | one =>
        refine ⟨.ok (r.report (.phaseOneUnbounded j), .inr .infeasible), .ends ?_, rfl⟩
        rw [resume, phaseOne, optimize_of_noLeaving hj hi]
      | two =>
        refine ⟨.ok (r, .inr .unbounded), .ends ?_, rfl⟩
        rw [resume, phaseTwo, optimize_of_noLeaving hj hi]
    | some i =>
      obtain ⟨a, ha, -⟩ := Tableau.leavingRow_eq_some hi
      by_cases hlt : r.iterations < s.maxIterations
      · simp only [pivot_engine hmax hshaped ha hcolumn hlt, Option.bind_some]
        refine ⟨_, .continues (hr.pivot hj hi hlt) (resume_pivot phase hj hi hlt) ?_, rfl⟩
        rw [roundsLeft, roundsLeft, iterations_pivot]
        omega
      · simp only [pivot_engine_of_le (not_lt.mp hlt), Option.bind_some]
        exact ⟨_, .stops (resume_of_le phase hj hi (not_lt.mp hlt)), rfl⟩

include hp hmax in
/-- **The rounds suffice**: every round leaves fewer of them. -/
theorem rounds_engine {n : ℕ} (hr : Passes s (.ofWellFormed p) (.optimizing phase) r)
    (hn : roundsLeft s phase r ≤ n) : r.engine.rounds s (.ofWellFormed p) n phase
      = some (stored (fun (q, status) ↦ (q.engine, status))
          (resume s (.ofWellFormed p) (.optimizing phase) r)) := by
  induction n generalizing r phase with
  | zero =>
    rw [roundsLeft] at hn
    split_ifs at hn <;> omega
  | succ n ih =>
    obtain ⟨outcome, hround, hstep⟩ := exists_round_step hp hmax hr
    rw [Engine.rounds, hstep]
    cases hround with
    | stops h =>
      rw [h]
      rfl
    | ends h =>
      rw [h]
      rfl
    | continues hq h hlt =>
      rw [h]
      exact ih hq (Nat.le_of_lt_succ (hlt.trans_le hn))

include hp hmax in
/-- **A whole run** meets no position that is not there, and ends within its rounds. -/
theorem complete_engine : Engine.complete s (.ofWellFormed p)
    = some (stored (fun (q, status) ↦ (q.engine, status)) (complete s (.ofWellFormed p))) := by
  have hr : Passes s (.ofWellFormed p) (.optimizing (Tableau.initial (.ofWellFormed p)).phase)
    (start s (.ofWellFormed p)) := .start
  have hrounds := rounds_engine (n := s.maxIterations + 2) hp hmax hr (by
    rw [roundsLeft, iterations_start]
    split_ifs <;> omega)
  rw [Engine.complete, start_engine hp, complete, phases_start]
  simp only [Option.bind_eq_bind, Option.bind_some, sheet_engine, Tableau.phase_sheet,
    tableau_start, hrounds]
  cases resume s (.ofWellFormed p) _ (start s (.ofWellFormed p)) <;> rfl

end Run

end LinearProgramming
