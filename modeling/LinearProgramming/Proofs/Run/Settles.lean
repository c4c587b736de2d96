import LinearProgramming.Proofs.Run.Concludes
import LinearProgramming.Proofs.Run.Monotone
import LinearProgramming.Proofs.Tableau.Similar
import Mathlib.Combinatorics.Pigeonhole
import Mathlib.Data.Finset.Powerset

/-!
# Phases that settle

A tableau *settles* after a number of pivots if the rules choose as many from there on and then
choose none. With tolerance zero the choices depend on the tableau up to the order of its rows,
which the set of basic columns tells, so similar tableaus settle after the same number of pivots,
and a tableau that settles comes by no basis twice. There are no more bases than ways to choose as
many columns as there are rows.

A phase of a solve that ends has settled, whatever comes after it.
-/

open Finset

namespace LinearProgramming

/-- How many ways there are to choose the basic columns. -/
def StandardForm.numBases (form : StandardForm ℚ) : ℕ := form.numColumns.choose form.rows.length

namespace Tableau

variable {form : StandardForm ℚ} {ε : ℚ} {t t' : Tableau ℚ} {i j i' j' n k : ℕ}

/-! ## Choices -/

theorem Chooses.unique (h : t.Chooses form ε i j) (h' : t.Chooses form ε i' j') :
    i = i' ∧ j = j' := by
  obtain rfl := Option.some_inj.mp (h.1.symm.trans h'.1)
  exact ⟨Option.some_inj.mp (h.2.symm.trans h'.2), rfl⟩

theorem Represents.pivot_of_chooses (h : t.Represents form) (hij : t.Chooses form 0 i j) :
    (t.pivot i j).Represents form := by
  obtain ⟨a, ha, hpos, -⟩ := exists_of_leavingRow_eq_some hij.2
  exact h.pivot ha (enters_of_enteringColumn hij.1).lt_numColumns hpos.ne'

/-- **The same choice.** Of similar tableaus the rules choose the same row and column, and the
tableaus they lead to are similar. -/
theorem Similar.exists_chooses (h : t.Similar t') (hrep : t.Represents form)
    (hrep' : t'.Represents form) (hij : t.Chooses form 0 i j) :
    ∃ i', t'.Chooses form 0 i' j ∧ (t.pivot i j).Similar (t'.pivot i' j) := by
  obtain ⟨a, ha, -⟩ := exists_of_leavingRow_eq_some hij.2
  obtain ⟨i', hi', ha'⟩ := h.exists_leavingRow hrep.canonical.rows hij.2 ha
  exact ⟨i', ⟨h.enteringColumn_eq.symm.trans hij.1, hi'⟩,
    h.pivot hrep.canonical.rows hrep'.canonical.rows ha ha'⟩

/-! ## Tableaus that settle -/

/-- That the rules choose `n` pivots from a tableau on, and then none. -/
inductive Settles (form : StandardForm ℚ) (ε : ℚ) : ℕ → Tableau ℚ → Prop
  | stop {t : Tableau ℚ} (h : ∀ i j, ¬t.Chooses form ε i j) : Settles form ε 0 t
  | pivot {n i j : ℕ} {t : Tableau ℚ} (h : t.Chooses form ε i j)
      (hrest : Settles form ε n (t.pivot i j)) : Settles form ε (n + 1) t

namespace Settles

theorem unique (h : t.Settles form ε n) (h' : t.Settles form ε k) : n = k := by
  induction h generalizing k with
  | stop hnone =>
    cases h' with
    | stop => rfl
    | pivot hij => exact absurd hij (hnone _ _)
  | pivot hij _ ih =>
    cases h' with
    | stop hnone => exact absurd hij (hnone _ _)
    | pivot hij' hrest =>
      obtain ⟨rfl, rfl⟩ := hij.unique hij'
      rw [ih hrest]

theorem of_similar (h : t.Settles form 0 n) (hrep : t.Represents form) (hrep' : t'.Represents form)
    (hsim : t.Similar t') : t'.Settles form 0 n := by
  induction h generalizing t' with
  | stop hnone =>
    refine .stop fun i' j hij ↦ ?_
    obtain ⟨i, hij', -⟩ := hsim.symm.exists_chooses hrep' hrep hij
    exact hnone i j hij'
  | pivot hij _ ih =>
    obtain ⟨i', hij', hsim'⟩ := hsim.exists_chooses hrep hrep' hij
    exact .pivot hij' (ih (hrep.pivot_of_chooses hij) (hrep'.pivot_of_chooses hij') hsim')

theorem exists_of_le (h : t.Settles form 0 n) (hrep : t.Represents form) (hk : k ≤ n) :
    ∃ t' : Tableau ℚ, t'.Represents form ∧ t'.phase = t.phase ∧ t'.numRows = t.numRows
      ∧ t'.Settles form 0 k := by
  induction h with
  | stop hnone => exact ⟨_, hrep, rfl, rfl, Nat.le_zero.mp hk ▸ .stop hnone⟩
  | pivot hij hrest ih =>
    rcases hk.eq_or_lt with rfl | hlt
    · exact ⟨_, hrep, rfl, rfl, .pivot hij hrest⟩
    · obtain ⟨t', hrep', hphase, hrows, h'⟩ :=
        ih (hrep.pivot_of_chooses hij) (Nat.le_of_lt_succ hlt)
      exact ⟨t', hrep', hphase, hrows.trans (List.length_mapIdx ..), h'⟩

end Settles

/-! ## How many bases there are -/

theorem Represents.toFinset_basis_mem (h : t.Represents form) :
    t.basis.toFinset ∈ powersetCard t.numRows (range form.numColumns) := by
  rw [mem_powersetCard, List.toFinset_card_of_nodup (nodup_basis h.canonical.rows)]
  refine ⟨fun c hc ↦ ?_, List.length_map ..⟩
  obtain ⟨i, a, ha, rfl⟩ := mem_basis_iff.mp (List.mem_toFinset.mp hc)
  exact mem_range.mpr (h.canonical.rows.basic_lt ha)

/-- **More tableaus than bases.** Among more tableaus of one phase than there are ways to choose the
basic columns, two are similar. -/
theorem exists_similar {phase : Phase} {f : ℕ → Tableau ℚ}
    (hrep : ∀ k ≤ form.numBases, (f k).Represents form)
    (hphase : ∀ k ≤ form.numBases, (f k).phase = phase)
    (hrows : ∀ k ≤ form.numBases, (f k).numRows = form.rows.length) :
    ∃ k l, k < l ∧ l ≤ form.numBases ∧ (f k).Similar (f l) := by
  have hcard : (powersetCard form.rows.length (range form.numColumns)).card
      < (range (form.numBases + 1)).card := by
    rw [card_powersetCard, card_range, card_range]
    exact Nat.lt_succ_self _
  obtain ⟨k, hk, l, hl, hne, hbasis⟩ := exists_ne_map_eq_of_card_lt_of_maps_to hcard
    (f := fun k ↦ (f k).basis.toFinset) fun k hk ↦ by
      have hk := Nat.le_of_lt_succ (mem_range.mp hk)
      exact hrows k hk ▸ (hrep k hk).toFinset_basis_mem
  have hk := Nat.le_of_lt_succ (mem_range.mp hk)
  have hl := Nat.le_of_lt_succ (mem_range.mp hl)
  have hsim : (f k).Similar (f l) :=
    (hrep k hk).similar (hrep l hl) ((hphase k hk).trans (hphase l hl).symm) hbasis
  rcases hne.lt_or_gt with hlt | hlt
  · exact ⟨k, l, hlt, hl, hsim⟩
  · exact ⟨l, k, hlt, hk, hsim.symm⟩

/-- **A tableau that settles** does so after fewer pivots than there are bases. -/
theorem Settles.lt_numBases (h : t.Settles form 0 n) (hrep : t.Represents form)
    (hrows : t.numRows = form.rows.length) : n < form.numBases := by
  by_contra hge
  have : Nonempty (Tableau ℚ) := ⟨t⟩
  choose! f hfrep hfphase hfrows hfsettles using fun k (hk : k ≤ form.numBases) ↦
    h.exists_of_le hrep (hk.trans (not_lt.mp hge))
  -- Two of them would be similar, and yet settle after different numbers of pivots.
  obtain ⟨k, l, hkl, hl, hsim⟩ :=
    exists_similar hfrep hfphase fun k hk ↦ (hfrows k hk).trans hrows
  have hk := hkl.le.trans hl
  have hsame := (hfsettles k hk).of_similar (hfrep k hk) (hfrep l hl) hsim
  exact hkl.ne (hsame.unique (hfsettles l hl))

end Tableau

/-! ## Phases that end -/

namespace Run

variable {s : Settings ℚ} {form : StandardForm ℚ} {phase : Phase} {r r' : Run ℚ} {status : Status}
  {n : ℕ}

theorem Concludes.settled_or_pivot (h : Concludes s form (.optimizing phase) r r' status) :
    (∀ i j, ¬r.tableau.Chooses form s.tolerance i j)
      ∨ ∃ i j, r.tableau.Chooses form s.tolerance i j
        ∧ Concludes s form (.optimizing phase) (r.pivot s i j) r' status := by
  by_cases hdue : ∃ i j, r.tableau.Chooses form s.tolerance i j
  · obtain ⟨i, j, hj, hi⟩ := hdue
    refine .inr ⟨i, j, ⟨hj, hi⟩, ?_⟩
    cases h with
    | pivot hj' hi' hrest =>
      obtain rfl := Option.some_inj.mp (hj.symm.trans hj')
      obtain rfl := Option.some_inj.mp (hi.symm.trans hi')
      exact hrest
    | _ => simp_all
  · exact .inl fun i j hij ↦ hdue ⟨i, j, hij⟩

/-- **A phase that ends has settled.** A solve that concludes from a phase makes the pivots of the
phase first. -/
theorem Concludes.exists_settles (h : Concludes s form (.optimizing phase) r r' status)
    (hr : Reached form s.tolerance (.optimizing phase) r.tableau) :
    ∃ n q, r.tableau.Settles form s.tolerance n ∧ q.iterations = r.iterations + n
      ∧ Reached form s.tolerance (.optimizing phase) q.tableau
      ∧ (∀ i j, ¬q.tableau.Chooses form s.tolerance i j)
      ∧ Concludes s form (.optimizing phase) q r' status := by
  induction hgap : r'.iterations - r.iterations using Nat.strongRecOn generalizing r with
  | ind gap ih =>
    rcases h.settled_or_pivot with hnone | ⟨i, j, hij, hrest⟩
    · exact ⟨0, r, .stop hnone, rfl, hr, hnone, h⟩
    · have hle := hrest.iterations_le
      rw [iterations_pivot] at hle
      have hreached := hr.pivot hij.1 hij.2
      rw [← tableau_pivot s] at hreached
      obtain ⟨n, q, hn, hq, hqreached, hnone, hlast⟩ :=
        ih _ (by rw [iterations_pivot]; omega) hrest hreached rfl
      rw [tableau_pivot] at hn
      rw [iterations_pivot] at hq
      exact ⟨n + 1, q, .pivot hij hn, by omega, hqreached, hnone, hlast⟩

theorem Concludes.settles_two (h : Concludes s form (.optimizing .two) r r' status)
    (hr : Reached form s.tolerance (.optimizing .two) r.tableau) :
    ∃ n, r.tableau.Settles form s.tolerance n ∧ r'.iterations = r.iterations + n := by
  obtain ⟨n, q, hn, hq, -, hnone, hlast⟩ := h.exists_settles hr
  cases hlast with
  | pivot hj hi => exact absurd ⟨hj, hi⟩ (hnone _ _)
  | _ => exact ⟨n, hn, hq⟩

theorem Passes.exists_settles_one (h : Passes s form (.optimizing .one) r)
    (hstart : (Tableau.initial form).Settles form s.tolerance n) :
    ∃ k, r.tableau.Settles form s.tolerance k ∧ r.iterations + k = n := by
  generalize hstage : Stage.optimizing .one = stage at h
  induction h with
  | start =>
    rw [tableau_start, iterations_start]
    exact ⟨n, hstart, Nat.zero_add n⟩
  | pivot _ hj hi _ ih =>
    obtain ⟨k, hk, hsum⟩ := ih hstage
    cases hk with
    | stop hnone => exact absurd ⟨hj, hi⟩ (hnone _ _)
    | pivot hij hrest =>
      obtain ⟨rfl, rfl⟩ := hij.unique ⟨hj, hi⟩
      rw [tableau_pivot, iterations_pivot]
      exact ⟨_, hrest, by omega⟩
  | _ => cases hstage

/-- **The end of a phase.** In a solve that ends, each run of a phase has as many pivots to go as it
is short of the number at which the phase ends. -/
theorem EndsAt.exists_last (h : EndsAt s form r' status) (phase : Phase) :
    ∃ last, ∀ {r : Run ℚ}, Passes s form (.optimizing phase) r →
      ∃ k, r.tableau.Settles form s.tolerance k ∧ r.iterations + k = last := by
  cases phase with
  | one =>
    obtain ⟨n, -, hn, -⟩ := Concludes.exists_settles h Passes.start.reached
    rw [tableau_start] at hn
    exact ⟨n, fun hr ↦ hr.exists_settles_one hn⟩
  | two =>
    refine ⟨r'.iterations, fun hr ↦ ?_⟩
    obtain ⟨k, hk, heq⟩ := (hr.concludes h).settles_two hr.reached
    exact ⟨k, hk, heq.symm⟩

end Run

end LinearProgramming
