import LinearProgramming.Proofs.Checked.Sheet

/-!
# Checked choices

The choices of the entering column, of the leaving row and of the column that replaces an artificial
variable, made on a sheet. Each is a loop over positions that carries the best one so far.

The sweep for the leaving row carries the position of a row and its ratio, and looks the two basic
columns up where it has to break a tie. On a tableau it carries a candidate that knows its basic
column. The two agree as long as the row carried is one that the tableau has.
-/

namespace LinearProgramming

open Checked

variable {α : Type} [Scalar α]

namespace Sheet

/-- The column with the most negative cost below `-ε`, the leftmost of equals. -/
def enteringColumn (form : StandardForm α) (ε : α) (s : Sheet α) : Option (Option ℕ) := do
  let obj ← s.objective
  let best ← (List.range (← s.numColumns)).foldlM (fun best j ↦
    if s.phase = .two && form.isArtificial j then some best
    else do
      let cost ← obj[j]?
      return if cost < best.1 then (cost, some j) else best) (-ε, none)
  return best.2

/-- The better of the best row so far and row `i`, each with its ratio. -/
def better (ε : α) (s : Sheet α) (i : ℕ) (ratio : α) :
    Option (ℕ × α) → Option (Option (ℕ × α))
  | none => some (some (i, ratio))
  | some (k, least) =>
    if ratio < least - ε then some (some (i, ratio))
    else if Scalar.abs (ratio - least) ≤ ε then do
      return if (← s.basis[i]?) < (← s.basis[k]?) then some (i, ratio) else some (k, least)
    else some (some (k, least))

/-- The row that leaves the basis when column `j` enters, if any limits its growth. -/
def leavingRow (ε : α) (s : Sheet α) (j : ℕ) : Option (Option ℕ) := do
  let best ← (List.range s.numRows).foldlM (fun best i ↦ do
    let cell ← s.value i j
    if cell ≤ ε then some best else s.better ε i ((← s.constant i) / cell) best) none
  return best.map (·.1)

/-- The first column that can replace an artificial variable in row `i`. -/
def replacementColumn (form : StandardForm α) (ε : α) (s : Sheet α) (i : ℕ) :
    Option (Option ℕ) := do
  (List.range (← s.numColumns)).findM? fun j ↦
    if form.isArtificial j then some false else do return ε < Scalar.abs (← s.value i j)

end Sheet

namespace Tableau

variable {t : Tableau α} {n i j : ℕ} {a : TableauRow α} {form : StandardForm α} {ε : α}

theorem enteringColumn_sheet (h : t.Shaped n) :
    t.sheet.enteringColumn form ε = some (t.enteringColumn form ε) := by
  have hlen : (t.objective.take n).length = n := by
    rw [List.length_take, h.length_objective]
    omega
  obtain ⟨best, hloop, rfl⟩ := foldlM_range_zipIdx (t.objective.take n)
    (fun best j ↦ if t.phase = .two && form.isArtificial j then some best
      else do
        let cost ← t.objective[j]?
        return if cost < best.1 then (cost, some j) else best)
    (f := fun best xj ↦
      if t.mayEnter form xj.2 && xj.1 < best.1 then (xj.1, some xj.2) else best)
    (R := Eq)
    (fun {j x best _} hj heq ↦ by
      subst heq
      have hlt : j < n := hlen ▸ (List.getElem?_eq_some_iff.mp hj).1
      rw [List.getElem?_take_of_lt hlt] at hj
      refine ⟨_, ?_, rfl⟩
      rw [mayEnter, hj]
      cases hblocked : (decide (t.phase = .two) && form.isArtificial j) with
      | true => rfl
      | false => simp)
    (b := (-ε, none)) rfl
  rw [Sheet.enteringColumn, objective_sheet, numColumns_sheet h, phase_sheet]
  rw [hlen] at hloop
  simp only [Option.bind_eq_bind, Option.bind_some] at hloop ⊢
  rw [hloop, enteringColumn, h.numColumns_eq]
  rfl

/-- What the sweep over a sheet carries, for the candidate that the one over the tableau carries. -/
def Carries (t : Tableau α) (best : Option (ℕ × α)) (c : Option (Candidate α)) : Prop :=
  best = c.map (fun c ↦ (c.row, c.ratio)) ∧ ∀ b ∈ c, t.basis[b.row]? = some b.basic

omit [Scalar α] in
theorem carries_of_row (ha : t.rows[i]? = some a) (ratio : α) :
    t.Carries (some (i, ratio)) (some ⟨i, a.basic, ratio⟩) :=
  ⟨rfl, fun _ hb ↦ Option.some_inj.mp hb ▸ getElem?_basis ha⟩

theorem better_sheet (ha : t.rows[i]? = some a) (ratio : α) {best : Option (ℕ × α)}
    {c : Option (Candidate α)} (hc : t.Carries best c) :
    ∃ best', t.sheet.better ε i ratio best = some best'
      ∧ t.Carries best' (pickCandidate ε c (some ⟨i, a.basic, ratio⟩)) := by
  obtain ⟨rfl, hbasic⟩ := hc
  cases c with
  | none => exact ⟨_, rfl, carries_of_row ha ratio⟩
  | some c =>
    have hkeep : t.Carries (some (c.row, c.ratio)) (some c) := ⟨rfl, hbasic⟩
    rw [pickCandidate, Candidate.beats, Option.map_some, Sheet.better]
    by_cases hless : ratio < c.ratio - ε
    · rw [if_pos hless]
      simp only [hless, decide_true, Bool.true_or, if_true]
      exact ⟨_, rfl, carries_of_row ha ratio⟩
    · rw [if_neg hless]
      by_cases htie : Scalar.abs (ratio - c.ratio) ≤ ε
      · rw [if_pos htie, basis_sheet, getElem?_basis ha, hbasic c rfl]
        simp only [hless, htie, decide_false, decide_true, Bool.false_or, Bool.true_and,
          decide_eq_true_eq]
        refine ⟨_, rfl, ?_⟩
        split_ifs
        · exact carries_of_row ha ratio
        · exact hkeep
      · rw [if_neg htie]
        simp only [hless, htie, decide_false, Bool.false_or, Bool.false_and, Bool.false_eq_true,
          if_false]
        exact ⟨_, rfl, hkeep⟩

theorem leavingRow_sheet (h : t.Shaped n) (hj : j < n) :
    t.sheet.leavingRow ε j = some (t.leavingRow ε j) := by
  obtain ⟨best, hloop, hbest⟩ := foldlM_range_zipIdx t.rows
    (fun best i ↦ do
      let cell ← t.sheet.value i j
      if cell ≤ ε then some best else t.sheet.better ε i ((← t.sheet.constant i) / cell) best)
    (f := fun best ai ↦ pickCandidate ε best (t.candidate? ε j ai.2 ai.1))
    (R := t.Carries)
    (fun {i a best c} ha hc ↦ by
      rw [value_sheet h ha hj.le, constant_sheet h ha, candidate?]
      simp only [Option.bind_eq_bind, Option.bind_some]
      split_ifs
      · exact ⟨best, rfl, by cases c <;> exact hc⟩
      · exact better_sheet ha _ hc)
    (b := none) (x := none) ⟨rfl, nofun⟩
  rw [Sheet.leavingRow, numRows_sheet, numRows, hloop, leavingRow]
  exact congrArg some (by rw [hbest.1, Option.map_map]; rfl)

theorem replacementColumn_sheet (h : t.Shaped n) (ha : t.rows[i]? = some a) :
    t.sheet.replacementColumn form ε i = some (t.replacementColumn form ε i) := by
  have hcell : t.row i = a.cells := by
    rw [row, ha]
    rfl
  rw [Sheet.replacementColumn, numColumns_sheet h, replacementColumn, h.numColumns_eq]
  refine findM?_eq fun j hj ↦ ?_
  rw [value_sheet h ha (List.mem_range.mp hj).le, cell, hcell]
  cases form.isArtificial j <;> rfl

end Tableau

end LinearProgramming
