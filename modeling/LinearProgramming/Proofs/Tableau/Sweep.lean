import LinearProgramming.Proofs.Run.Trail
import LinearProgramming.Proofs.Tableau.PivotRule
import Mathlib.Data.Set.Finite.Lemmas

/-!
# The leaving row under a tolerance

The sweep for the leaving row compares each candidate with the one it carries, and a tie hands the
comparison on to the row that has won it. Where the tolerance is above zero ties do not chain: the
row carried may move up by the tolerance with every tie it takes, and a row that lost a tie to one
that is beaten later is not looked at again.

So the row that leaves is within *one tolerance for each comparison* of the smallest ratio, and
which row it is may depend on the order of the rows. It is the one with the lowest basic column
among all that tie with the smallest ratio, whatever the order, exactly if no row that ties with it
has a lower one.
-/

namespace LinearProgramming

namespace Candidate

variable {ε : ℚ} {c d : Candidate ℚ} {l : List (Candidate ℚ)}

/-! ## Comparing two candidates -/

theorem beats_iff : c.beats ε d = true
    ↔ c.ratio < d.ratio - ε ∨ |c.ratio - d.ratio| ≤ ε ∧ c.basic < d.basic := by
  rw [beats, Bool.or_eq_true, Bool.and_eq_true, decide_eq_true_iff, decide_eq_true_iff,
    decide_eq_true_iff, Scalar.abs_eq]

theorem ratio_le_of_beats (hε : 0 ≤ ε) (h : c.beats ε d = true) : c.ratio ≤ d.ratio + ε := by
  rcases beats_iff.mp h with hlt | ⟨hle, -⟩
  · linarith
  · linarith [(abs_le.mp hle).2]

theorem ratio_le_of_not_beats (h : ¬c.beats ε d = true) : d.ratio ≤ c.ratio + ε := by
  rw [beats_iff, not_or, not_lt] at h
  linarith [h.1]

theorem not_beats_of_beats (hε : 0 ≤ ε) (h : c.beats ε d = true) : ¬d.beats ε c = true := by
  rw [beats_iff] at h ⊢
  rintro (hlt' | ⟨hle', hlt'⟩) <;> rcases h with hlt | ⟨hle, hlt⟩
  · linarith
  · linarith [(abs_le.mp hle).2]
  · linarith [(abs_le.mp hle').2]
  · exact absurd hlt (lt_asymm hlt')

/-! ## The sweep -/

/-- The candidate that a sweep over `l` ends with if it starts with `c`. -/
def sweep (ε : ℚ) (c : Candidate ℚ) (l : List (Candidate ℚ)) : Candidate ℚ :=
  l.foldl (fun best c ↦ if c.beats ε best then c else best) c

theorem foldl_pickCandidate (ε : ℚ) (c : Candidate ℚ) (l : List (Candidate ℚ)) :
    l.foldl (fun best c ↦ Tableau.pickCandidate ε best (some c)) (some c) = some (sweep ε c l) := by
  induction l generalizing c with
  | nil => rfl
  | cons d l ih =>
    rw [sweep, List.foldl_cons, List.foldl_cons, Tableau.pickCandidate]
    split_ifs
    · exact ih d
    · exact ih c

theorem sweep_mem (ε : ℚ) (c : Candidate ℚ) (l : List (Candidate ℚ)) : sweep ε c l ∈ c :: l := by
  induction l generalizing c with
  | nil => exact List.mem_cons_self
  | cons d l ih =>
    rw [sweep, List.foldl_cons]
    split_ifs
    · exact List.mem_cons_of_mem c (ih d)
    · rcases List.mem_cons.mp (ih c) with h | h
      · exact List.mem_cons.mpr (.inl h)
      · exact List.mem_cons_of_mem c (List.mem_cons_of_mem d h)

/-- **Each comparison costs one tolerance.** The ratio that a sweep ends with exceeds no ratio by
more than the tolerance times the number of comparisons. -/
theorem ratio_sweep_le (hε : 0 ≤ ε) (c : Candidate ℚ) (l : List (Candidate ℚ)) :
    ∀ d ∈ c :: l, (sweep ε c l).ratio ≤ d.ratio + l.length * ε := by
  induction l generalizing c with
  | nil =>
    intro d hd
    rw [List.mem_singleton.mp hd, List.length_nil, Nat.cast_zero, zero_mul, add_zero]
    exact le_refl _
  | cons e l ih =>
    intro d hd
    rw [sweep, List.foldl_cons, List.length_cons, Nat.cast_succ, add_one_mul]
    -- The winner `best` of the first comparison is at most one tolerance above both sides of it.
    have hstep : ∀ best, (best = c ∨ best = e) → best.ratio ≤ c.ratio + ε →
        best.ratio ≤ e.ratio + ε → (sweep ε best l).ratio ≤ d.ratio + (l.length * ε + ε) := by
      intro best hbest hc he
      have hself := ih best best List.mem_cons_self
      rcases List.mem_cons.mp hd with rfl | hd
      · linarith
      · rcases List.mem_cons.mp hd with rfl | hd
        · linarith
        · linarith [ih best d (List.mem_cons_of_mem best hd)]
    split_ifs with hbeats
    · exact hstep e (.inr rfl) (ratio_le_of_beats hε hbeats) (by linarith)
    · exact hstep c (.inl rfl) (by linarith) (ratio_le_of_not_beats hbeats)

theorem sweep_eq_of_beats (hε : 0 ≤ ε) {w : Candidate ℚ} (hw : w ∈ c :: l)
    (h : ∀ d ∈ c :: l, d ≠ w → w.beats ε d = true) : sweep ε c l = w := by
  induction l generalizing c with
  | nil => exact (List.mem_singleton.mp hw).symm
  | cons d l ih =>
    rw [sweep, List.foldl_cons]
    have hl : ∀ e ∈ l, e ≠ w → w.beats ε e = true := fun e he ↦
      h e (List.mem_cons_of_mem c (List.mem_cons_of_mem d he))
    -- The candidate that is carried on is `w` if `w` was one of the two.
    have hstep : ∀ best, (best = c ∨ best = d) → (w = c ∨ w = d → best = w) →
        sweep ε best l = w := by
      intro best hbest hkeep
      refine ih ?_ fun e he hne ↦ ?_
      · rcases List.mem_cons.mp hw with hc | hw
        · exact List.mem_cons.mpr (.inl (hkeep (.inl hc)).symm)
        · rcases List.mem_cons.mp hw with hd | hw
          · exact List.mem_cons.mpr (.inl (hkeep (.inr hd)).symm)
          · exact List.mem_cons_of_mem best hw
      · rcases List.mem_cons.mp he with rfl | he
        · rcases hbest with rfl | rfl
          · exact h e List.mem_cons_self hne
          · exact h e (List.mem_cons_of_mem c List.mem_cons_self) hne
        · exact hl e he hne
    split_ifs with hbeats
    · refine hstep d (.inr rfl) fun hor ↦ ?_
      rcases hor with rfl | rfl
      · by_contra hne
        exact not_beats_of_beats hε hbeats (h d (List.mem_cons_of_mem w List.mem_cons_self) hne)
      · rfl
    · refine hstep c (.inl rfl) fun hor ↦ ?_
      rcases hor with rfl | rfl
      · rfl
      · by_contra hne
        exact hbeats (h c List.mem_cons_self hne)

end Candidate

namespace Tableau

variable {ε : ℚ} {t : Tableau ℚ} {i j : ℕ} {a b : TableauRow ℚ}

/-! ## The rows that limit a column -/

/-- The rows that limit the growth of column `j`: those with a cell above `ε` there. -/
def limiting (ε : ℚ) (t : Tableau ℚ) (j : ℕ) : List (TableauRow ℚ) :=
  t.rows.filter fun row ↦ ε < cellAt row.cells j

theorem mem_limiting_iff : a ∈ t.limiting ε j ↔ a ∈ t.rows ∧ ε < cellAt a.cells j := by
  rw [limiting, List.mem_filter, decide_eq_true_iff]

/-- The candidates that the limiting rows make, from top to bottom. -/
def candidates (ε : ℚ) (t : Tableau ℚ) (j : ℕ) : List (Candidate ℚ) :=
  (t.rows.zipIdx.filter fun p ↦ ε < cellAt p.1.cells j).map fun p ↦ t.candidateOf j p.2 p.1

theorem mem_candidates_iff {c : Candidate ℚ} : c ∈ t.candidates ε j
    ↔ ∃ i a, t.rows[i]? = some a ∧ ε < cellAt a.cells j ∧ c = t.candidateOf j i a := by
  rw [candidates, List.mem_map]
  constructor
  · rintro ⟨⟨a, i⟩, hp, rfl⟩
    rw [List.mem_filter, decide_eq_true_iff, List.mk_mem_zipIdx_iff_getElem?] at hp
    exact ⟨i, a, hp.1, hp.2, rfl⟩
  · rintro ⟨i, a, ha, hcell, rfl⟩
    refine ⟨(a, i), ?_, rfl⟩
    rw [List.mem_filter, decide_eq_true_iff, List.mk_mem_zipIdx_iff_getElem?]
    exact ⟨ha, hcell⟩

theorem exists_candidateOf_mem (ha : a ∈ t.limiting ε j) :
    ∃ i, t.rows[i]? = some a ∧ t.candidateOf j i a ∈ t.candidates ε j := by
  rw [mem_limiting_iff] at ha
  obtain ⟨i, hi⟩ := List.mem_iff_getElem?.mp ha.1
  exact ⟨i, hi, mem_candidates_iff.mpr ⟨i, a, hi, ha.2, rfl⟩⟩

theorem map_basic_candidates (ε : ℚ) (t : Tableau ℚ) (j : ℕ) :
    (t.candidates ε j).map (·.basic) = (t.limiting ε j).map (·.basic) := by
  have hrows : t.limiting ε j
      = (t.rows.zipIdx.filter fun p ↦ ε < cellAt p.1.cells j).map Prod.fst := by
    conv_lhs => rw [limiting, ← List.zipIdx_map_fst 0 t.rows, List.filter_map]
    rfl
  rw [hrows, candidates, List.map_map, List.map_map]
  rfl

theorem length_candidates (ε : ℚ) (t : Tableau ℚ) (j : ℕ) :
    (t.candidates ε j).length = (t.limiting ε j).length := by
  have h := congrArg List.length (map_basic_candidates ε t j)
  rwa [List.length_map, List.length_map] at h

theorem nodup_basic_candidates (hbasis : t.basis.Nodup) :
    ((t.candidates ε j).map (·.basic)).Nodup := by
  rw [map_basic_candidates]
  exact hbasis.sublist (List.filter_sublist.map _)

/-- **The leaving row is found by a sweep over the candidates.** -/
theorem leavingRow_eq (ε : ℚ) (t : Tableau ℚ) (j : ℕ) : t.leavingRow ε j
    = ((t.candidates ε j).foldl (fun best c ↦ pickCandidate ε best (some c)) none).map (·.row) := by
  have hstep : (fun (best : Option (Candidate ℚ)) (p : TableauRow ℚ × ℕ) ↦
      pickCandidate ε best (t.candidate? ε j p.2 p.1))
      = fun best p ↦ if ε < cellAt p.1.cells j
          then pickCandidate ε best (some (t.candidateOf j p.2 p.1)) else best := by
    funext best p
    rw [candidate?]
    by_cases hcell : ε < cellAt p.1.cells j
    · rw [if_pos hcell, if_neg (not_le.mpr hcell)]
      rfl
    · rw [if_neg hcell, if_pos (not_lt.mp hcell)]
      cases best <;> rfl
  rw [leavingRow, candidates, List.foldl_map, List.foldl_filter]
  simp only [decide_eq_true_iff]
  exact congrArg (Option.map (·.row)) (congrArg (fun f ↦ t.rows.zipIdx.foldl f none) hstep)

theorem leavingRow_eq_none_iff :
    t.leavingRow ε j = none ↔ ∀ row ∈ t.rows, cellAt row.cells j ≤ ε := by
  refine ⟨le_of_leavingRow_eq_none, fun h ↦ ?_⟩
  by_contra hne
  obtain ⟨i, hi⟩ := Option.ne_none_iff_exists'.mp hne
  obtain ⟨a, ha, hcell, -⟩ := exists_of_leavingRow_eq_some hi
  exact not_le.mpr hcell (h a (List.mem_of_getElem? ha))

theorem leavingRow_eq_of_candidates {c : Candidate ℚ} {l : List (Candidate ℚ)}
    (h : t.candidates ε j = c :: l) : t.leavingRow ε j = some (c.sweep ε l).row := by
  rw [leavingRow_eq, h, List.foldl_cons, pickCandidate, Candidate.foldl_pickCandidate]
  rfl

theorem exists_sweep_of_leavingRow (h : t.leavingRow ε j = some i) :
    ∃ c l, t.candidates ε j = c :: l ∧ i = (Candidate.sweep ε c l).row := by
  cases hc : t.candidates ε j with
  | nil =>
    rw [leavingRow_eq, hc] at h
    exact absurd h (Option.some_ne_none i).symm
  | cons c l =>
    rw [leavingRow_eq_of_candidates hc, Option.some_inj] at h
    exact ⟨c, l, rfl, h.symm⟩

/-- **The leaving row is the last winner** of the sweep, and its ratio exceeds that of no limiting
row by more than a tolerance for each of the others. -/
theorem ratio_le_of_leavingRow (hε : 0 ≤ ε) (h : t.leavingRow ε j = some i) :
    ∃ a, t.rows[i]? = some a ∧ a ∈ t.limiting ε j ∧ ∀ b ∈ t.limiting ε j,
      t.ratio j a ≤ t.ratio j b + ((t.limiting ε j).length - 1 : ℕ) * ε := by
  obtain ⟨c, l, hc, rfl⟩ := exists_sweep_of_leavingRow h
  have hwin : c.sweep ε l ∈ t.candidates ε j := by
    rw [hc]
    exact c.sweep_mem ε l
  obtain ⟨i, a, ha, hcell, heq⟩ := mem_candidates_iff.mp hwin
  refine ⟨a, by rw [heq]; exact ha, mem_limiting_iff.mpr ⟨List.mem_of_getElem? ha, hcell⟩,
    fun b hb ↦ ?_⟩
  obtain ⟨k, -, hk⟩ := exists_candidateOf_mem hb
  rw [hc] at hk
  have hle := Candidate.ratio_sweep_le hε c l _ hk
  rwa [heq, show l.length = (t.limiting ε j).length - 1 by
    rw [← length_candidates, hc, List.length_cons, Nat.add_sub_cancel]] at hle

/-! ## The row of the ratio test -/

/-- That the ratio of a row is within `ε` of the smallest. -/
def Tied (ε : ℚ) (t : Tableau ℚ) (j : ℕ) (a : TableauRow ℚ) : Prop :=
  ∀ b ∈ t.limiting ε j, t.ratio j a ≤ t.ratio j b + ε

/-- That row `a` is the one the ratio test asks for: of the limiting rows whose ratio is within `ε`
of the smallest, the one with the lowest basic column. -/
structure MinRatio (ε : ℚ) (t : Tableau ℚ) (j : ℕ) (a : TableauRow ℚ) : Prop where
  mem : a ∈ t.limiting ε j
  tied : t.Tied ε j a
  lowest : ∀ b ∈ t.limiting ε j, t.Tied ε j b → a.basic ≤ b.basic

theorem exists_minRatio (hε : 0 ≤ ε) (hne : t.limiting ε j ≠ []) : ∃ a, t.MinRatio ε j a := by
  obtain ⟨m, hm, hmin⟩ := Set.exists_min_image {a | a ∈ t.limiting ε j} (t.ratio j)
    (List.finite_toSet _) (List.exists_mem_of_ne_nil _ hne)
  obtain ⟨a, ha, hlow⟩ := Set.exists_min_image {a | a ∈ t.limiting ε j ∧ t.Tied ε j a} (·.basic)
    ((List.finite_toSet (t.limiting ε j)).subset fun a ha ↦ ha.1)
    ⟨m, hm, fun b hb ↦ (hmin b hb).trans (le_add_of_nonneg_right hε)⟩
  exact ⟨a, ha.1, ha.2, fun b hb htied ↦ hlow b ⟨hb, htied⟩⟩

def reorder (t : Tableau ℚ) (rows : List (TableauRow ℚ)) : Tableau ℚ := { t with rows := rows }

theorem mem_limiting_reorder_iff {rows : List (TableauRow ℚ)} (hperm : rows.Perm t.rows) :
    b ∈ (t.reorder rows).limiting ε j ↔ b ∈ t.limiting ε j := by
  rw [mem_limiting_iff, mem_limiting_iff]
  exact and_congr_left' hperm.mem_iff

theorem nodup_basis_reorder {rows : List (TableauRow ℚ)} (hperm : rows.Perm t.rows)
    (hbasis : t.basis.Nodup) : (t.reorder rows).basis.Nodup :=
  (hperm.map _).nodup_iff.mpr hbasis

theorem exists_perm_candidates (ha : a ∈ t.limiting ε j) (hb : b ∈ t.limiting ε j) (hne : b ≠ a) :
    ∃ rows l, rows.Perm t.rows ∧ (t.reorder rows).candidates ε j
      = t.candidateOf j 0 a :: t.candidateOf j 1 b :: l := by
  classical
  rw [mem_limiting_iff] at ha hb
  have hfirst := List.perm_cons_erase ha.1
  have hsecond := List.perm_cons_erase ((List.mem_erase_of_ne hne).mpr hb.1)
  have hcand : ∃ l, (t.reorder (a :: b :: (t.rows.erase a).erase b)).candidates ε j
      = t.candidateOf j 0 a :: t.candidateOf j 1 b :: l := by
    rw [candidates, reorder, List.zipIdx_cons, List.zipIdx_cons,
      List.filter_cons_of_pos (by rw [decide_eq_true_iff]; exact ha.2),
      List.filter_cons_of_pos (by rw [decide_eq_true_iff]; exact hb.2)]
    exact ⟨_, rfl⟩
  obtain ⟨l, hl⟩ := hcand
  exact ⟨_, l, (hfirst.trans (hsecond.cons a)).symm, hl⟩

/-- Which row the ratio test asks for does not depend on the order of the rows. -/
theorem MinRatio.reorder (ha : t.MinRatio ε j a) {rows : List (TableauRow ℚ)}
    (hperm : rows.Perm t.rows) : (t.reorder rows).MinRatio ε j a where
  mem := (mem_limiting_reorder_iff hperm).mpr ha.mem
  tied b hb := ha.tied b ((mem_limiting_reorder_iff hperm).mp hb)
  lowest b hb htied := by
    apply ha.lowest b ((mem_limiting_reorder_iff hperm).mp hb)
    intro c hc
    exact htied c ((mem_limiting_reorder_iff hperm).mpr hc)

private theorem abs_sub_le_of_le {x y : ℚ} (hxy : x ≤ y + ε) (hyx : y ≤ x + ε) : |x - y| ≤ ε :=
  abs_sub_le_iff.mpr ⟨sub_le_iff_le_add'.mpr hxy, sub_le_iff_le_add'.mpr hyx⟩

/-- A limiting row with a lower basic column that ties with `a` takes its place if it comes right
after it. -/
theorem MinRatio.exists_perm_ne (hbasis : t.basis.Nodup) (ha : t.MinRatio ε j a)
    (hb : b ∈ t.limiting ε j) (hle : t.ratio j b ≤ t.ratio j a + ε) (hlt : b.basic < a.basic) :
    ∃ rows, rows.Perm t.rows
      ∧ ∀ i, (t.reorder rows).leavingRow ε j = some i → rows[i]? ≠ some a := by
  have hne : b ≠ a := by
    rintro rfl
    exact hlt.ne rfl
  obtain ⟨rows, l, hperm, hcand⟩ := exists_perm_candidates ha.mem hb hne
  refine ⟨rows, hperm, fun i hi hrow ↦ ?_⟩
  have hbeats : (t.candidateOf j 1 b).beats ε (t.candidateOf j 0 a) = true :=
    Candidate.beats_iff.mpr (.inr ⟨abs_sub_le_of_le hle (ha.tied b hb), hlt⟩)
  rw [leavingRow_eq_of_candidates hcand, Candidate.sweep, List.foldl_cons, if_pos hbeats,
    Option.some_inj] at hi
  change (Candidate.sweep ε (t.candidateOf j 1 b) l).row = i at hi
  -- The sweep goes on with `b`, and what it ends with is a candidate of another row than `a`.
  have hmem := Candidate.sweep_mem ε (t.candidateOf j 1 b) l
  have hin := List.mem_cons_of_mem (t.candidateOf j 0 a) hmem
  rw [← hcand, mem_candidates_iff] at hin
  obtain ⟨k, c, hk, -, heq⟩ := hin
  have hca : c = a := by
    rw [heq] at hi
    rw [← show k = i from hi] at hrow
    exact Option.some_inj.mp (hk.symm.trans hrow)
  have hnodup := nodup_basic_candidates (ε := ε) (j := j) (nodup_basis_reorder hperm hbasis)
  rw [hcand, List.map_cons, List.nodup_cons] at hnodup
  refine hnodup.1 (List.mem_map.mpr ⟨_, hmem, ?_⟩)
  rw [heq, hca]
  rfl

theorem leavingRow_eq_of_beats (hε : 0 ≤ ε) {w : Candidate ℚ} (hw : w ∈ t.candidates ε j)
    (h : ∀ d ∈ t.candidates ε j, d ≠ w → w.beats ε d = true) : t.leavingRow ε j = some w.row := by
  obtain ⟨c, l, hc⟩ := List.exists_cons_of_ne_nil (List.ne_nil_of_mem hw)
  rw [leavingRow_eq_of_candidates hc]
  rw [hc] at hw h
  rw [Candidate.sweep_eq_of_beats hε hw h]

/-- The row of the ratio test leaves if no limiting row that ties with it has a lower basic
column. -/
theorem MinRatio.leavingRow_eq (hε : 0 ≤ ε) (hbasis : t.basis.Nodup) (ha : t.MinRatio ε j a)
    (h : ∀ b ∈ t.limiting ε j, t.ratio j b ≤ t.ratio j a + ε → a.basic ≤ b.basic) :
    ∃ i, t.leavingRow ε j = some i ∧ t.rows[i]? = some a := by
  obtain ⟨i, hi, hmem⟩ := exists_candidateOf_mem ha.mem
  refine ⟨i, leavingRow_eq_of_beats hε hmem fun d hd hne ↦ ?_, hi⟩
  obtain ⟨k, b, hk, hcell, rfl⟩ := mem_candidates_iff.mp hd
  have hb : b ∈ t.limiting ε j := mem_limiting_iff.mpr ⟨List.mem_of_getElem? hk, hcell⟩
  rw [Candidate.beats_iff]
  by_cases hle : t.ratio j b ≤ t.ratio j a + ε
  · have hbasic : b.basic ≠ a.basic := fun heq ↦
      hne (List.inj_on_of_nodup_map (nodup_basic_candidates hbasis) hd hmem heq)
    exact .inr ⟨abs_sub_le_of_le (ha.tied b hb) hle, (h b hb hle).lt_of_ne hbasic.symm⟩
  · exact .inl (lt_sub_iff_add_lt.mpr (not_le.mp hle))

/-! ## The ratio test -/

/-- **The ratio test under a tolerance.** No row leaves exactly if no row limits the column. A row
that leaves has a cell above the tolerance, and its ratio exceeds the smallest by at most one
tolerance for each of the other limiting rows. The row the ratio test asks for exists wherever a row
limits the column, and it is the one that leaves in every order of the rows exactly if none of those
that tie with it has a lower basic column. -/
theorem leavingRow_minRatio (hε : 0 ≤ ε) (hbasis : t.basis.Nodup) (j : ℕ) :
    (t.leavingRow ε j = none ↔ ∀ row ∈ t.rows, cellAt row.cells j ≤ ε)
      ∧ (∀ i, t.leavingRow ε j = some i → ∃ a, t.rows[i]? = some a ∧ ε < cellAt a.cells j
        ∧ ∀ b ∈ t.limiting ε j,
          t.ratio j a ≤ t.ratio j b + ((t.limiting ε j).length - 1 : ℕ) * ε)
      ∧ (t.limiting ε j ≠ [] → ∃ a, t.MinRatio ε j a)
      ∧ ∀ a, t.MinRatio ε j a →
        ((∀ rows, rows.Perm t.rows →
            ∃ i, (t.reorder rows).leavingRow ε j = some i ∧ rows[i]? = some a)
          ↔ ∀ b ∈ t.limiting ε j, t.ratio j b ≤ t.ratio j a + ε → a.basic ≤ b.basic) := by
  refine ⟨leavingRow_eq_none_iff, ?_, exists_minRatio hε, ?_⟩
  · intro i hi
    obtain ⟨a, ha, hmem, hle⟩ := ratio_le_of_leavingRow hε hi
    exact ⟨a, ha, (mem_limiting_iff.mp hmem).2, hle⟩
  · intro a ha
    constructor
    · intro h b hb hle
      by_contra hlt
      obtain ⟨rows, hperm, hne⟩ := ha.exists_perm_ne hbasis hb hle (not_le.mp hlt)
      obtain ⟨i, hi, hrow⟩ := h rows hperm
      exact hne i hi hrow
    · intro h rows hperm
      apply (ha.reorder hperm).leavingRow_eq hε (nodup_basis_reorder hperm hbasis)
      intro b hb
      exact h b ((mem_limiting_reorder_iff hperm).mp hb)

/-- Three rows that limit the first column at 1, 7/5 and 9/5. -/
def stairs : Tableau ℚ where
  rows := [⟨4, [1, 1]⟩, ⟨1, [5, 7]⟩, ⟨2, [5, 9]⟩]
  objective := [-1, 0]
  phase := .two

/-- With a tolerance of one half the second row leaves, in whatever order the three stand: it ties
with the first and with the third, and the first and the third do not tie with each other. -/
theorem leavingRow_minRatio_stairs : (0 : ℚ) ≤ 1 / 2 ∧ stairs.basis.Nodup
    ∧ stairs.MinRatio (1 / 2) 0 ⟨1, [5, 7]⟩
    ∧ ∀ rows, rows.Perm stairs.rows →
      ∃ i, (stairs.reorder rows).leavingRow (1 / 2) 0 = some i ∧ rows[i]? = some ⟨1, [5, 7]⟩ := by
  have hε : (0 : ℚ) ≤ 1 / 2 := by norm_num
  have hbasis : stairs.basis.Nodup := by decide
  have hmin : stairs.MinRatio (1 / 2) 0 ⟨1, [5, 7]⟩ := by
    refine ⟨mem_limiting_iff.mpr ⟨List.mem_of_getElem? (i := 1) rfl, by decide +kernel⟩, ?_, ?_⟩
    · rw [Tied]
      decide +kernel
    · have h : ∀ b ∈ stairs.limiting (1 / 2) 0, 1 ≤ b.basic := by decide +kernel
      exact fun b hb _ ↦ h b hb
  obtain ⟨-, -, -, h⟩ := leavingRow_minRatio hε hbasis 0
  exact ⟨hε, hbasis, hmin, (h _ hmin).mpr (by decide +kernel)⟩

/-! ## A tie of a tie -/

/-- Rows whose ratios rise by one tolerance from each to the next, with ever lower basic columns. -/
def ladder (ε : ℚ) (n : ℕ) : Tableau ℚ where
  rows := (List.range (n + 1)).map fun i ↦ ⟨n - i, [1, i * ε]⟩
  objective := [-1, 0]
  phase := .two

/-- The candidate of a row of the ladder. -/
private def rung (ε : ℚ) (n i : ℕ) : Candidate ℚ := { row := i, basic := n - i, ratio := i * ε }

private theorem candidates_ladder (hε : ε < 1) (n : ℕ) :
    (ladder ε n).candidates ε 0 = (List.range (n + 1)).map (rung ε n) := by
  have hzip : (ladder ε n).rows.zipIdx
      = (List.range (n + 1)).map fun i ↦ (⟨n - i, [1, i * ε]⟩, i) := by
    refine List.ext_getElem? fun i ↦ ?_
    rw [ladder, List.getElem?_zipIdx, List.getElem?_map, List.getElem?_map]
    by_cases hi : i < n + 1
    · rw [List.getElem?_range hi]
      simp
    · rw [List.getElem?_eq_none (by rw [List.length_range]; omega)]
      rfl
  have hfilter : (ladder ε n).rows.zipIdx.filter (fun p ↦ ε < cellAt p.1.cells 0)
      = (ladder ε n).rows.zipIdx := by
    rw [List.filter_eq_self, hzip, List.forall_mem_map]
    intro i _
    rw [decide_eq_true_iff]
    exact hε
  rw [candidates, hfilter, hzip, List.map_map]
  refine List.map_congr_left fun i _ ↦ ?_
  change ({ row := i, basic := n - i, ratio := i * ε / 1 } : Candidate ℚ) = rung ε n i
  rw [div_one]
  rfl

private theorem getElem?_rows_ladder (ε : ℚ) {n : ℕ} (hi : i < n + 1) :
    (ladder ε n).rows[i]? = some ⟨n - i, [1, i * ε]⟩ := by
  rw [ladder, List.getElem?_map, List.getElem?_range hi]
  rfl

private theorem beats_rung (hε : 0 ≤ ε) {n m : ℕ} (hm : m < n) :
    (rung ε n (m + 1)).beats ε (rung ε n m) = true := by
  refine Candidate.beats_iff.mpr (.inr ⟨?_, Nat.sub_lt_sub_left hm (Nat.lt_succ_self m)⟩)
  change |((m + 1 : ℕ) : ℚ) * ε - m * ε| ≤ ε
  rw [Nat.cast_succ, add_one_mul, add_sub_cancel_left, abs_of_nonneg hε]

private theorem foldl_rung (hε : 0 ≤ ε) {n m : ℕ} (hm : m ≤ n) :
    ((List.range (m + 1)).map (rung ε n)).foldl
      (fun best c ↦ pickCandidate ε best (some c)) none = some (rung ε n m) := by
  induction m with
  | zero => rfl
  | succ m ih =>
    rw [List.range_succ, List.map_append, List.foldl_append, ih (Nat.le_of_succ_le hm)]
    change pickCandidate ε (some (rung ε n m)) (some (rung ε n (m + 1))) = _
    rw [pickCandidate, if_pos (beats_rung hε hm)]

/-- **The bound is attained**, for every number of rows: each row of the ladder ties with the one
before it and takes its place, and the row that leaves is the last one. -/
theorem leavingRow_ladder (hε : 0 ≤ ε) (hlt : ε < 1) (n : ℕ) :
    (ladder ε n).leavingRow ε 0 = some n
      ∧ ∃ a b, (ladder ε n).rows[n]? = some a ∧ (ladder ε n).rows[0]? = some b
        ∧ (ladder ε n).ratio 0 a = (ladder ε n).ratio 0 b + n * ε := by
  refine ⟨?_, _, _, getElem?_rows_ladder ε (Nat.lt_succ_self n),
    getElem?_rows_ladder ε (Nat.succ_pos n), ?_⟩
  · rw [leavingRow_eq, candidates_ladder hlt, foldl_rung hε (le_refl n)]
    rfl
  · change n * ε / 1 = ((0 : ℕ) : ℚ) * ε / 1 + n * ε
    rw [Nat.cast_zero, zero_mul, zero_div, zero_add, div_one]

/-- The first row limits the third column at one, the second a little later and the third later by
as much again. The two pivots before leave the basic columns in the opposite order. -/
def drift : Problem ℚ where
  sense := .maximize
  objective := [4, 4, 3]
  constraints := [⟨none, [0, 0, 1], .le, 1⟩, ⟨none, [0, 4, 1], .le, 1 + 1 / 2 ^ 30⟩,
    ⟨none, [4, 0, 1], .le, 1 + 2 / 2 ^ 30⟩]
  variableNames := []

/-- **A tie of a tie wins.** In a solve with the standard tolerance the third row leaves, with a
ratio above that of the first by more than the tolerance: it ties with the second row, which ties
with the first. -/
theorem leavingRow_drift : 0 ≤ (Settings.standard (α := ℚ)).tolerance
    ∧ ∃ step ∈ trail .standard (.ofWellFormed drift), step.tableau.basis.Nodup
      ∧ step.tableau.enteringColumn (.ofWellFormed drift) (Settings.standard (α := ℚ)).tolerance
        = some 2
      ∧ step.tableau.leavingRow (Settings.standard (α := ℚ)).tolerance 2 = some 2
      ∧ ∃ a ∈ step.tableau.rows[2]?,
        ∃ b ∈ step.tableau.limiting (Settings.standard (α := ℚ)).tolerance 2,
          step.tableau.ratio 2 b + (Settings.standard (α := ℚ)).tolerance
            < step.tableau.ratio 2 a := by
  decide +kernel

end Tableau

end LinearProgramming
