import LinearProgramming.Proofs.Tableau.Choice
import LinearProgramming.Proofs.Tableau.Pivot

/-!
# What the pivot rules choose

Each choice is one sweep that carries the best of what it has seen. A sweep is described by what it
holds after the part of the list it has seen, and that description is kept by one more element; the
rule itself is the description of the whole list.

The leaving row is chosen with a tolerance for ties, and its row need not have the smallest ratio.
With tolerance zero ties are equalities, the comparison is the lexicographic order of ratio and
basic column, and the sweep finds its least element.
-/

namespace LinearProgramming

namespace Tableau

variable {form : StandardForm ℚ} {ε : ℚ} {t : Tableau ℚ} {i j : ℕ}

/-! ## The entering column -/

/-- What a sweep over `costs` holds: nothing while no cost is below `-ε`, and otherwise the least
cost and the leftmost column that has it. -/
private inductive Scanned (may : ℕ → Bool) (ε : ℚ) (costs : List ℚ) : ℚ × Option ℕ → Prop
  | nothing (h : ∀ k < costs.length, may k = true → -ε ≤ cellAt costs k) :
      Scanned may ε costs (-ε, none)
  | column {j : ℕ} (hj : j < costs.length) (hmay : may j = true) (hlt : cellAt costs j < -ε)
      (hle : ∀ k < costs.length, may k = true → cellAt costs j ≤ cellAt costs k)
      (hleft : ∀ k < j, may k = true → cellAt costs j < cellAt costs k) :
      Scanned may ε costs (cellAt costs j, some j)

private theorem Scanned.append {may : ℕ → Bool} {costs : List ℚ} {best : ℚ × Option ℕ}
    (h : Scanned may ε costs best) (x : ℚ) :
    Scanned may ε (costs ++ [x])
      (if may costs.length && x < best.1 then (x, some costs.length) else best) := by
  have hold : ∀ {k}, k < costs.length → cellAt (costs ++ [x]) k = cellAt costs k :=
    fun hk ↦ cellAt_append_left hk
  have hnew : cellAt (costs ++ [x]) costs.length = x := cellAt_append_singleton rfl x
  have hlen : (costs ++ [x]).length = costs.length + 1 := List.length_append
  have hcases : ∀ {k}, k < (costs ++ [x]).length → k < costs.length ∨ k = costs.length := by
    intro k hk
    rw [hlen] at hk
    omega
  -- Whatever is held, `best.1` bounds the costs seen so far from below, starting with `-ε`.
  by_cases hx : (may costs.length && decide (x < best.1)) = true
  · rw [if_pos hx]
    rw [Bool.and_eq_true, decide_eq_true_iff] at hx
    have hbest : x < -ε ∧ ∀ k < costs.length, may k = true → x < cellAt costs k := by
      cases h with
      | nothing h => exact ⟨hx.2, fun k hk hmay ↦ hx.2.trans_le (h k hk hmay)⟩
      | column hj hmay hlt hle hleft =>
        exact ⟨hx.2.trans hlt, fun k hk hmay ↦ hx.2.trans_le (hle k hk hmay)⟩
    have hcol : Scanned may ε (costs ++ [x])
        (cellAt (costs ++ [x]) costs.length, some costs.length) := by
      refine .column (by rw [hlen]; omega) hx.1 (by rw [hnew]; exact hbest.1) ?_ ?_
      · intro k hk hmay
        rcases hcases hk with hk | rfl
        · rw [hnew, hold hk]
          exact (hbest.2 k hk hmay).le
        · exact le_refl _
      · intro k hk hmay
        rw [hnew, hold hk]
        exact hbest.2 k hk hmay
    rwa [hnew] at hcol
  · rw [if_neg hx]
    have hlast : may costs.length = true → best.1 ≤ x := by
      intro hmay
      by_contra hlt
      exact hx (by rw [hmay, Bool.true_and, decide_eq_true_iff]; exact not_le.mp hlt)
    cases h with
    | nothing h =>
      refine .nothing fun k hk hmay ↦ ?_
      rcases hcases hk with hk | rfl
      · rw [hold hk]
        exact h k hk hmay
      · rw [hnew]
        exact hlast hmay
    | @column j hj hmay hlt hle hleft =>
      have hcol : Scanned may ε (costs ++ [x]) (cellAt (costs ++ [x]) j, some j) := by
        refine .column (by rw [hlen]; omega) hmay (by rw [hold hj]; exact hlt) ?_ ?_
        · intro k hk hk'
          rcases hcases hk with hk | rfl
          · rw [hold hj, hold hk]
            exact hle k hk hk'
          · rw [hold hj, hnew]
            exact hlast hk'
        · intro k hk hk'
          rw [hold hj, hold (hk.trans hj)]
          exact hleft k hk hk'
      rwa [hold hj] at hcol

private theorem scanned_foldl (may : ℕ → Bool) (ε : ℚ) (costs : List ℚ) :
    Scanned may ε costs (costs.zipIdx.foldl (fun best (cost, j) ↦
      if may j && cost < best.1 then (cost, some j) else best) (-ε, none)) := by
  induction costs using List.reverseRecOn with
  | nil => exact .nothing fun k hk ↦ absurd hk (Nat.not_lt_zero k)
  | append_singleton costs x ih =>
    rw [List.zipIdx_append, List.foldl_append, Nat.zero_add]
    exact ih.append x

private theorem length_take_objective (t : Tableau ℚ) :
    (t.objective.take t.numColumns).length = t.numColumns := by
  rw [List.length_take, numColumns]
  omega

/-- That column `j` is the one to enter: its cost is the least of those that may enter, it is below
`-ε`, and no column further left has the same. -/
structure Enters (form : StandardForm ℚ) (ε : ℚ) (t : Tableau ℚ) (j : ℕ) : Prop where
  lt_numColumns : j < t.numColumns
  mayEnter : t.mayEnter form j = true
  below : cellAt t.objective j < -ε
  least : ∀ k < t.numColumns, t.mayEnter form k = true →
    cellAt t.objective j ≤ cellAt t.objective k
  leftmost : ∀ k < j, t.mayEnter form k = true → cellAt t.objective j < cellAt t.objective k

theorem Enters.earns (h : t.Enters form 0 j) : 0 < -cellAt t.objective j := by
  have hbelow := h.below
  rwa [neg_zero, ← neg_pos] at hbelow

theorem Enters.isArtificial_eq_false (h : t.Enters form ε j) (hphase : t.phase = .two) :
    form.isArtificial j = false := by
  have hmay := h.mayEnter
  rw [Tableau.mayEnter, hphase] at hmay
  simpa using hmay

private theorem scanned_enteringColumn (form : StandardForm ℚ) (ε : ℚ) (t : Tableau ℚ) :
    ∃ best, Scanned (t.mayEnter form) ε (t.objective.take t.numColumns) best
      ∧ t.enteringColumn form ε = best.2 :=
  ⟨_, scanned_foldl (t.mayEnter form) ε _, rfl⟩

/-- **No column enters** only where no cost of a column that may enter is below `-ε`. -/
theorem neg_le_of_enteringColumn_eq_none (h : t.enteringColumn form ε = none) {k : ℕ}
    (hk : k < t.numColumns) (hmay : t.mayEnter form k = true) : -ε ≤ cellAt t.objective k := by
  obtain ⟨best, hscan, hbest⟩ := scanned_enteringColumn form ε t
  rw [h] at hbest
  cases hscan with
  | nothing hall =>
    rw [← cellAt_take hk]
    exact hall k (by rwa [length_take_objective]) hmay
  | column => exact absurd hbest (Option.some_ne_none _).symm

theorem enters_of_enteringColumn (h : t.enteringColumn form ε = some j) : t.Enters form ε j := by
  obtain ⟨best, hscan, hbest⟩ := scanned_enteringColumn form ε t
  rw [h] at hbest
  cases hscan with
  | nothing => exact absurd hbest (Option.some_ne_none _)
  | column hj hmay hlt hle hleft =>
    obtain rfl := Option.some_inj.mp hbest
    rw [length_take_objective] at hj hle
    rw [cellAt_take hj] at hlt hle hleft
    refine ⟨hj, hmay, hlt, fun k hk hk' ↦ ?_, fun k hk hk' ↦ ?_⟩
    · rw [← cellAt_take hk]
      exact hle k hk hk'
    · rw [← cellAt_take (hk.trans hj)]
      exact hleft k hk hk'

/-! ## The leaving row -/

/-- How far column `j` can grow before the basic variable of a row reaches zero. -/
def ratio (t : Tableau ℚ) (j : ℕ) (row : TableauRow ℚ) : ℚ :=
  t.constantOf row.cells / cellAt row.cells j

/-- That `a` goes before `b`: by a smaller ratio, or an equal one and a basic column no further
right. -/
def Precedes (t : Tableau ℚ) (j : ℕ) (a b : TableauRow ℚ) : Prop :=
  t.ratio j a < t.ratio j b ∨ t.ratio j a = t.ratio j b ∧ a.basic ≤ b.basic

theorem Precedes.trans {a b c : TableauRow ℚ} (hab : t.Precedes j a b) (hbc : t.Precedes j b c) :
    t.Precedes j a c := by
  rcases hab with hab | ⟨hab, hab'⟩ <;> rcases hbc with hbc | ⟨hbc, hbc'⟩
  · exact .inl (hab.trans hbc)
  · exact .inl (hbc ▸ hab)
  · exact .inl (hab ▸ hbc)
  · exact .inr ⟨hab.trans hbc, hab'.trans hbc'⟩

theorem Precedes.ratio_le {a b : TableauRow ℚ} (h : t.Precedes j a b) :
    t.ratio j a ≤ t.ratio j b := by
  rcases h with h | ⟨h, -⟩
  · exact h.le
  · exact h.le

theorem Precedes.basic_eq {a b : TableauRow ℚ} (hab : t.Precedes j a b) (hba : t.Precedes j b a) :
    a.basic = b.basic := by
  rcases hab with hab | ⟨heq, hab⟩ <;> rcases hba with hba | ⟨heq', hba⟩
  · exact absurd hba (lt_asymm hab)
  · exact absurd heq'.symm hab.ne
  · exact absurd heq.symm hba.ne
  · exact le_antisymm hab hba

/-- The candidate that row `i` makes. -/
def candidateOf (t : Tableau ℚ) (j i : ℕ) (row : TableauRow ℚ) : Candidate ℚ :=
  { row := i, basic := row.basic, ratio := t.ratio j row }

/-- What a sweep over `rows` holds: nothing while no cell of column `j` is above `ε`, and otherwise
the candidate of a row with such a cell, with tolerance zero one that precedes all the others. -/
private inductive Swept (ε : ℚ) (t : Tableau ℚ) (j : ℕ) (rows : List (TableauRow ℚ)) :
    Option (Candidate ℚ) → Prop
  | nothing (h : ∀ row ∈ rows, cellAt row.cells j ≤ ε) : Swept ε t j rows none
  | row {i : ℕ} {a : TableauRow ℚ} (ha : rows[i]? = some a) (hcell : ε < cellAt a.cells j)
      (hfirst : ε = 0 → ∀ b ∈ rows, 0 < cellAt b.cells j → t.Precedes j a b) :
      Swept ε t j rows (some (candidateOf t j i a))

private theorem beats_zero_iff {i k : ℕ} {a b : TableauRow ℚ} :
    (candidateOf t j i a).beats 0 (candidateOf t j k b) = true
      ↔ t.ratio j a < t.ratio j b ∨ t.ratio j a = t.ratio j b ∧ a.basic < b.basic := by
  rw [Candidate.beats, Bool.or_eq_true, Bool.and_eq_true, decide_eq_true_iff, decide_eq_true_iff,
    decide_eq_true_iff, Scalar.abs_eq, abs_nonpos_iff, sub_eq_zero]
  change t.ratio j a < t.ratio j b - 0 ∨ _ ↔ _
  rw [sub_zero]
  rfl

private theorem precedes_of_not_beats {i k : ℕ} {a b : TableauRow ℚ}
    (h : ¬(candidateOf t j i a).beats 0 (candidateOf t j k b) = true) : t.Precedes j b a := by
  rw [beats_zero_iff, not_or, not_and, not_lt, not_lt] at h
  rcases h.1.lt_or_eq with hlt | heq
  · exact .inl hlt
  · exact .inr ⟨heq, h.2 heq.symm⟩

private theorem Swept.append {rows : List (TableauRow ℚ)} {best : Option (Candidate ℚ)}
    (h : Swept ε t j rows best) (b : TableauRow ℚ) :
    Swept ε t j (rows ++ [b]) (pickCandidate ε best (t.candidate? ε j rows.length b)) := by
  have hold : ∀ {i : ℕ} {a : TableauRow ℚ}, rows[i]? = some a → (rows ++ [b])[i]? = some a := by
    intro i a ha
    rw [List.getElem?_append_left (List.getElem?_eq_some_iff.mp ha).1, ha]
  have hnew : (rows ++ [b])[rows.length]? = some b := List.getElem?_concat_length
  by_cases hb : cellAt b.cells j ≤ ε
  · -- The row is no candidate, and what the sweep holds stays.
    have hnone : t.candidate? ε j rows.length b = none := by rw [candidate?, if_pos hb]
    rw [hnone, show pickCandidate ε best none = best from by cases best <;> rfl]
    cases h with
    | nothing h =>
      refine .nothing fun row hrow ↦ ?_
      rcases List.mem_append.mp hrow with hrow | hrow
      · exact h row hrow
      · rwa [List.mem_singleton.mp hrow]
    | row ha hcell hfirst =>
      refine .row (hold ha) hcell fun hε c hc hpos ↦ ?_
      rcases List.mem_append.mp hc with hc | hc
      · exact hfirst hε c hc hpos
      · rw [List.mem_singleton.mp hc] at hpos
        exact absurd (hε ▸ hb) (not_le.mpr hpos)
  · have hsome : t.candidate? ε j rows.length b = some (candidateOf t j rows.length b) := by
      rw [candidate?, if_neg hb]
      rfl
    rw [hsome]
    rw [not_le] at hb
    cases h with
    | nothing h =>
      refine .row hnew hb fun hε c hc hpos ↦ ?_
      rcases List.mem_append.mp hc with hc | hc
      · exact absurd (hε ▸ h c hc) (not_le.mpr hpos)
      · rw [List.mem_singleton.mp hc]
        exact .inr ⟨rfl, le_refl _⟩
    | @row i a ha hcell hfirst =>
      rw [pickCandidate]
      split_ifs with hbeats
      · refine .row hnew hb fun hε c hc hpos ↦ ?_
        rw [hε, beats_zero_iff] at hbeats
        have hba : t.Precedes j b a := by
          rcases hbeats with hlt | ⟨heq, hlt⟩
          · exact .inl hlt
          · exact .inr ⟨heq, hlt.le⟩
        rcases List.mem_append.mp hc with hc | hc
        · exact hba.trans (hfirst hε c hc hpos)
        · rw [List.mem_singleton.mp hc]
          exact .inr ⟨rfl, le_refl _⟩
      · refine .row (hold ha) hcell fun hε c hc hpos ↦ ?_
        rcases List.mem_append.mp hc with hc | hc
        · exact hfirst hε c hc hpos
        · rw [List.mem_singleton.mp hc]
          exact precedes_of_not_beats (hε ▸ hbeats)

private theorem swept_foldl (ε : ℚ) (t : Tableau ℚ) (j : ℕ) (rows : List (TableauRow ℚ)) :
    Swept ε t j rows (rows.zipIdx.foldl (fun best (row, i) ↦
      pickCandidate ε best (t.candidate? ε j i row)) none) := by
  induction rows using List.reverseRecOn with
  | nil => exact .nothing fun row hrow ↦ absurd hrow List.not_mem_nil
  | append_singleton rows b ih =>
    rw [List.zipIdx_append, List.foldl_append, Nat.zero_add]
    exact ih.append b

private theorem swept_leavingRow (ε : ℚ) (t : Tableau ℚ) (j : ℕ) :
    ∃ best, Swept ε t j t.rows best ∧ t.leavingRow ε j = best.map (·.row) :=
  ⟨_, swept_foldl ε t j t.rows, rfl⟩

/-- **No row leaves** only where no cell of the column is above `ε`. -/
theorem le_of_leavingRow_eq_none (h : t.leavingRow ε j = none) :
    ∀ row ∈ t.rows, cellAt row.cells j ≤ ε := by
  obtain ⟨best, hswept, hbest⟩ := swept_leavingRow ε t j
  rw [h] at hbest
  cases hswept with
  | nothing hall => exact hall
  | row => exact absurd hbest (Option.some_ne_none _).symm

/-- The leaving row has a cell above `ε` in the column, and with tolerance zero it precedes every
row with a positive cell. -/
theorem exists_of_leavingRow_eq_some (h : t.leavingRow ε j = some i) :
    ∃ a, t.rows[i]? = some a ∧ ε < cellAt a.cells j
      ∧ (ε = 0 → ∀ b ∈ t.rows, 0 < cellAt b.cells j → t.Precedes j a b) := by
  obtain ⟨best, hswept, hbest⟩ := swept_leavingRow ε t j
  rw [h] at hbest
  cases hswept with
  | nothing => exact absurd hbest (Option.some_ne_none _)
  | @row k a ha hcell hfirst =>
    obtain rfl : i = k := Option.some_inj.mp hbest
    exact ⟨a, ha, hcell, hfirst⟩

/-! ## The replacement of an artificial variable -/

theorem replacementColumn_eq_some (h : t.replacementColumn form ε i = some j) :
    j < t.numColumns ∧ form.isArtificial j = false ∧ ε < |t.cell i j| := by
  rw [← Scalar.abs_eq]
  exact mem_of_replacementColumn_eq_some h

theorem abs_cell_le_of_replacementColumn_eq_none (h : t.replacementColumn form ε i = none)
    (hj : j < t.numColumns) (hart : form.isArtificial j = false) : |t.cell i j| ≤ ε := by
  have hnot := List.find?_eq_none.mp h j (List.mem_range.mpr hj)
  rw [hart, Bool.not_false, Bool.true_and, decide_eq_true_iff, Scalar.abs_eq] at hnot
  exact not_lt.mp hnot

end Tableau

end LinearProgramming
