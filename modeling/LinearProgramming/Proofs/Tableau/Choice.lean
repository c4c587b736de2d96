import LinearProgramming.Tableau.PivotRule
import Mathlib.Data.List.Infix
import Mathlib.Data.Nat.Notation
import Mathlib.Logic.Relation

/-!
# Choices in any arithmetic

What a choice says of the cells it was made by, with no law of the numbers used: whatever is chosen
lies inside the tableau, and it has passed the test of its rule. Over the numbers a program computes
with, where `<` may be false both ways and sums are rounded, this is all there is to say.

The sweep for the entering column compares each cost with the best one so far, and that one has been
compared with the one before it. So a chosen cost is joined to `-ε` by a chain of comparisons, and
only where `<` is transitive is it below `-ε` itself.
-/

namespace LinearProgramming

namespace Tableau

variable {α : Type} [Scalar α] {form : StandardForm α} {ε : α} {t : Tableau α} {i j : ℕ}

/-- What a scan of some of the costs holds. The bound carried along is `-ε` to begin with, and every
later one is below the one before. -/
private theorem scan_spec {l : List (α × ℕ)}
    (hl : ∀ x k, (x, k) ∈ l → k < t.numColumns ∧ cellAt t.objective k = x) :
    ∀ k ∈ (l.foldl (fun best (x, k) ↦
        if t.mayEnter form k && x < best.1 then (x, some k) else best) (-ε, none)).2,
      k < t.numColumns ∧ t.mayEnter form k = true
        ∧ Relation.TransGen (· < ·) (cellAt t.objective k) (-ε) := by
  refine (List.foldlRecOn (motive := fun best : α × Option ℕ ↦
    Relation.ReflTransGen (· < ·) best.1 (-ε) ∧ ∀ k ∈ best.2, k < t.numColumns
      ∧ t.mayEnter form k = true
      ∧ Relation.TransGen (· < ·) (cellAt t.objective k) (-ε)) l _ ⟨.refl, by simp⟩ ?_).2
  rintro best ⟨hbound, hbest⟩ ⟨x, k⟩ hmem
  obtain ⟨hk, hx⟩ := hl x k hmem
  dsimp only
  split_ifs with htest
  · rw [Bool.and_eq_true, decide_eq_true_iff] at htest
    have hchain : Relation.TransGen (· < ·) x (-ε) := .head' htest.2 hbound
    refine ⟨hchain.to_reflTransGen, fun k' hk' ↦ ?_⟩
    obtain rfl : k = k' := Option.some_inj.mp hk'
    exact ⟨hk, htest.1, hx ▸ hchain⟩
  · exact ⟨hbound, hbest⟩

theorem enteringColumn_eq_some (h : t.enteringColumn form ε = some j) :
    j < t.numColumns ∧ t.mayEnter form j = true
      ∧ Relation.TransGen (· < ·) (cellAt t.objective j) (-ε) := by
  refine scan_spec (fun x k hmem ↦ ?_) j h
  have hx := List.mk_mem_zipIdx_iff_getElem?.mp hmem
  have hk : k < t.numColumns := by
    have hlt := (List.getElem?_eq_some_iff.mp hx).1
    rw [List.length_take] at hlt
    omega
  rw [List.getElem?_take_of_lt hk] at hx
  exact ⟨hk, by rw [cellAt, hx]; rfl⟩

private theorem mem_pickCandidate {best next : Option (Candidate α)} {c : Candidate α}
    (h : c ∈ pickCandidate ε best next) : c ∈ best ∨ c ∈ next := by
  rcases best with _ | best <;> rcases next with _ | next
  · exact .inl h
  · exact .inr h
  · exact .inl h
  · rw [pickCandidate] at h
    split_ifs at h
    · exact .inr h
    · exact .inl h

private theorem sweep_spec {l : List (TableauRow α × ℕ)}
    (hl : ∀ a k, (a, k) ∈ l → t.rows[k]? = some a) :
    ∀ c ∈ l.foldl (fun best (row, k) ↦ pickCandidate ε best (t.candidate? ε j k row)) none,
      ∃ a, t.rows[c.row]? = some a ∧ ¬cellAt a.cells j ≤ ε := by
  refine List.foldlRecOn (motive := fun best : Option (Candidate α) ↦
    ∀ c ∈ best, ∃ a, t.rows[c.row]? = some a ∧ ¬cellAt a.cells j ≤ ε) l _ (by simp) ?_
  rintro best hbest ⟨a, k⟩ hmem c hc
  rcases mem_pickCandidate hc with hc | hc
  · exact hbest c hc
  · rw [candidate?] at hc
    split_ifs at hc with hcell
    · simp at hc
    · obtain rfl := Option.some_inj.mp hc
      exact ⟨a, hl a k hmem, hcell⟩

theorem leavingRow_eq_some (h : t.leavingRow ε j = some i) :
    ∃ a, t.rows[i]? = some a ∧ ¬cellAt a.cells j ≤ ε := by
  obtain ⟨c, hc, rfl⟩ := Option.map_eq_some_iff.mp h
  exact sweep_spec (fun a k hmem ↦ List.mk_mem_zipIdx_iff_getElem?.mp hmem) c hc

theorem mem_of_replacementColumn_eq_some (h : t.replacementColumn form ε i = some j) :
    j < t.numColumns ∧ form.isArtificial j = false ∧ ε < Scalar.abs (t.cell i j) := by
  have hmem := List.mem_of_find?_eq_some h
  have htest := List.find?_some h
  rw [Bool.and_eq_true, Bool.not_eq_true', decide_eq_true_iff] at htest
  exact ⟨List.mem_range.mp hmem, htest⟩

omit [Scalar α] in
theorem exists_row_of_basis_any (h : t.basis[i]?.any form.isArtificial = true) :
    ∃ a, t.rows[i]? = some a ∧ form.isArtificial a.basic = true := by
  rw [basis, List.getElem?_map] at h
  rcases ha : t.rows[i]? with _ | a
  · rw [ha] at h
    exact absurd h (by simp)
  · rw [ha] at h
    exact ⟨a, rfl, by simpa using h⟩

/-! ## Pivots inside the tableau -/

theorem pivot?_eq_some (hi : i < t.numRows) (hj : j < t.numColumns) :
    t.pivot? i j = some (t.pivot i j) := if_pos ⟨hi, hj.le⟩

/-- **A pivot that the rules choose** is one that the tableau has room for. -/
theorem pivot?_of_chosen (hj : t.enteringColumn form ε = some j) (hi : t.leavingRow ε j = some i) :
    t.pivot? i j = some (t.pivot i j) := by
  obtain ⟨a, ha, -⟩ := leavingRow_eq_some hi
  exact pivot?_eq_some (List.getElem?_eq_some_iff.mp ha).1 (enteringColumn_eq_some hj).1

theorem pivot?_of_exchanged (hart : t.basis[i]?.any form.isArtificial = true)
    (hj : t.replacementColumn form ε i = some j) : t.pivot? i j = some (t.pivot i j) := by
  obtain ⟨a, ha, -⟩ := exists_row_of_basis_any hart
  exact pivot?_eq_some (List.getElem?_eq_some_iff.mp ha).1 (mem_of_replacementColumn_eq_some hj).1

end Tableau

end LinearProgramming
