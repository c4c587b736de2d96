import LinearProgramming.Proofs.Run.Carried
import LinearProgramming.Proofs.StandardForm.Signs
import LinearProgramming.Run.Basic
import LinearProgramming.Solution.ReadOff

/-!
# Runs do not see signs

How a problem was written is noted in its standard form and read by no stage of a run: the first
tableau is made of the costs and the cells, and the choice of pivots asks of a column only whether
it is artificial. So a run on a form is a run on the form without the notes, and forms that differ
in their notes have one run.

The notes are read when prices are read off. Each turns the sign of a price, so that two of them
cancel. Prices of one row are equal for forms that both turn them or both do not, and opposed for
forms of which one does.
-/

namespace LinearProgramming

open Scalar

variable {α : Type} [Scalar α] {s : Settings α} {form form' : StandardForm α}

/-! ## Stages -/

namespace Tableau

theorem initial_unsigned (form : StandardForm α) : initial form.unsigned = initial form := by
  rw [initial, initial, StandardForm.unsigned, List.map_map]
  rfl

theorem enteringColumn_unsigned (form : StandardForm α) (t : Tableau α) (ε : α) :
    t.enteringColumn form.unsigned ε = t.enteringColumn form ε := rfl

theorem replacementColumn_unsigned (form : StandardForm α) (t : Tableau α) (ε : α) (i : ℕ) :
    t.replacementColumn form.unsigned ε i = t.replacementColumn form ε i := rfl

end Tableau

namespace Run

theorem start_unsigned (s : Settings α) (form : StandardForm α) :
    start s form.unsigned = start s form := by
  have hrows : form.unsigned.rows.length = form.rows.length := List.length_map ..
  rw [start, start, Tableau.initial_unsigned, hrows]
  rfl

theorem carries_unsigned (s : Settings α) (form : StandardForm α) :
    Carries s s form form.unsigned id where
  maxIterations_eq := rfl
  tolerance_eq := rfl
  isArtificial_eq := rfl
  iterations_eq _ := rfl
  phase_eq _ := rfl
  basis_eq _ := rfl
  enteringColumn_eq r := Tableau.enteringColumn_unsigned form r.tableau s.tolerance
  leavingRow_eq _ _ := rfl
  replacementColumn_eq r i := Tableau.replacementColumn_unsigned form r.tableau s.tolerance i
  objectiveValue_eq _ _ := rfl
  start_eq := start_unsigned s form
  report_eq _ _ := rfl
  pivot_eq _ _ _ := rfl
  enterPhaseTwo_eq _ := rfl

/-- **A whole run does without the notes.** -/
theorem complete_unsigned (s : Settings α) (form : StandardForm α) :
    complete s form.unsigned = complete s form := by
  rw [(carries_unsigned s form).complete_eq]
  rcases complete s form with _ | _ <;> rfl

theorem complete_congr (h : form'.unsigned = form.unsigned) :
    complete s form' = complete s form := by
  rw [← complete_unsigned, h, complete_unsigned]

end Run

/-! ## Prices -/

namespace Tableau

variable [LawfulNeg α] {row row' : StandardRow α}

theorem shadowPrice_eq_snap (form : StandardForm α) (ε : α) (t : Tableau α)
    (row : StandardRow α) : t.shadowPrice form ε row
      = snap ε (if form.turnsPrice row then -t.rowPrice row else t.rowPrice row) := by
  rw [shadowPrice, StandardForm.turnsPrice]
  cases row.negated <;> cases form.signFlipped <;> simp [LawfulNeg.neg_neg]

omit [LawfulNeg α] in
theorem rowPrice_congr (hrow : row'.unsigned = row.unsigned) (t : Tableau α) :
    t.rowPrice row' = t.rowPrice row := by
  change t.rowPrice row'.unsigned = t.rowPrice row.unsigned
  rw [hrow]

theorem shadowPrice_congr (hrow : row'.unsigned = row.unsigned)
    (hturns : form'.turnsPrice row' = form.turnsPrice row) (ε : α) (t : Tableau α) :
    t.shadowPrice form' ε row' = t.shadowPrice form ε row := by
  rw [shadowPrice_eq_snap, shadowPrice_eq_snap, rowPrice_congr hrow, hturns]

/-- **A price that is turned in one form only is the opposite in the other.** -/
theorem opposed_shadowPrice (hrow : row'.unsigned = row.unsigned)
    (hturns : form'.turnsPrice row' = !form.turnsPrice row) (ε : α) (t : Tableau α) :
    Opposed ε (t.shadowPrice form ε row) (t.shadowPrice form' ε row') := by
  rw [shadowPrice_eq_snap, shadowPrice_eq_snap, rowPrice_congr hrow, hturns]
  cases form.turnsPrice row with
  | false => exact opposed_snap ε (t.rowPrice row)
  | true =>
    have h := opposed_snap ε (-t.rowPrice row)
    rwa [LawfulNeg.neg_neg] at h

end Tableau

end LinearProgramming
