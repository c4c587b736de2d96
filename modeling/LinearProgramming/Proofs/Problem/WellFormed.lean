import Mathlib.Order.Nat
import Mathlib.Tactic.SplitIfs
import LinearProgramming.Problem.Feasible

/-!
# What makes a problem well formed

The judgement of a problem stops at the first fault it meets. Where it meets none, all that it looks
for holds at once: sizes within the limits, names for all variables or for none, rows of the right
length, and finite numbers everywhere.
-/

namespace LinearProgramming

open Scalar

variable {α : Type} [Scalar α]

theorem Constraint.validate_eq_ok_iff {con : Constraint α} {n i : ℕ} : con.validate n i = .ok ()
    ↔ con.coefficients.length = n ∧ isFinite con.rhs = true
      ∧ ∀ x ∈ con.coefficients, isFinite x = true := by
  rw [Constraint.validate]
  split_ifs with hlen hfinite
  · exact iff_of_false nofun fun h ↦ hlen h.1
  · refine iff_of_false nofun fun ⟨_, hrhs, hcoefficients⟩ ↦ ?_
    have hnone : con.coefficients.any (!isFinite ·) = false := by simpa using hcoefficients
    rw [hrhs, hnone] at hfinite
    cases hfinite
  · exact iff_of_true rfl ⟨not_not.mp hlen, by simpa using hfinite⟩

namespace Problem

variable {p : Problem α}

theorem validateRows_eq_ok_iff {n i : ℕ} {cons : List (Constraint α)} :
    validateRows n i cons = .ok () ↔ ∀ con ∈ cons, con.coefficients.length = n
      ∧ isFinite con.rhs = true ∧ ∀ x ∈ con.coefficients, isFinite x = true := by
  induction cons generalizing i with
  | nil => exact iff_of_true rfl fun _ h ↦ absurd h List.not_mem_nil
  | cons con cons ih =>
    rw [validateRows, List.forall_mem_cons, ← con.validate_eq_ok_iff (i := i),
      ← ih (i := i + 1)]
    cases con.validate n i <;> simp

/-- **Well-formed problems** are those without any of the faults that are looked for. -/
theorem wellFormed_iff : p.WellFormed ↔ 0 < p.numVariables ∧ p.numVariables ≤ maxVariables
    ∧ p.numConstraints ≤ maxConstraints
    ∧ (p.variableNames = [] ∨ p.variableNames.length = p.numVariables)
    ∧ (∀ x ∈ p.objective, isFinite x = true)
    ∧ ∀ con ∈ p.constraints, con.coefficients.length = p.numVariables
      ∧ isFinite con.rhs = true ∧ ∀ x ∈ con.coefficients, isFinite x = true := by
  rw [WellFormed, validate, ← validateRows_eq_ok_iff (i := 0)]
  split_ifs with hzero hvariables hconstraints hnames hobjective
  · exact iff_of_false nofun fun h ↦ h.1.ne' hzero
  · exact iff_of_false nofun fun h ↦ h.2.1.not_gt hvariables
  · exact iff_of_false nofun fun h ↦ h.2.2.1.not_gt hconstraints
  · refine iff_of_false nofun fun h ↦ ?_
    rcases h.2.2.2.1 with hnone | hlen
    · simp [hnone] at hnames
    · simp [hlen] at hnames
  · refine iff_of_false nofun fun h ↦ ?_
    obtain ⟨x, hx, hinfinite⟩ := List.any_eq_true.mp hobjective
    simp [h.2.2.2.2.1 x hx] at hinfinite
  · refine ⟨fun h ↦ ⟨Nat.pos_of_ne_zero hzero, not_lt.mp hvariables, not_lt.mp hconstraints, ?_,
      by simpa using hobjective, h⟩, fun h ↦ h.2.2.2.2.2⟩
    by_cases hnone : p.variableNames = []
    · exact .inl hnone
    · exact .inr (by simpa [hnone] using hnames)

theorem WellFormed.length_coefficients (h : p.WellFormed) :
    ∀ con ∈ p.constraints, con.coefficients.length = p.numVariables :=
  fun con hcon ↦ ((wellFormed_iff.mp h).2.2.2.2.2 con hcon).1

theorem WellFormed.isFinite_rhs (h : p.WellFormed) :
    ∀ con ∈ p.constraints, isFinite con.rhs = true :=
  fun con hcon ↦ ((wellFormed_iff.mp h).2.2.2.2.2 con hcon).2.1

theorem WellFormed.isFinite_objective (h : p.WellFormed) :
    ∀ x ∈ p.objective, isFinite x = true := (wellFormed_iff.mp h).2.2.2.2.1

end Problem

end LinearProgramming
