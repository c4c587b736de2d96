import LinearProgramming.Problem.Dual
import LinearProgramming.Proofs.Scalar.Signs
import LinearProgramming.Proofs.StandardForm.Points

/-!
# Problems that differ in signs

A constraint says the same with both sides negated and its relation flipped, and an objective asks
for the same points when it is negated and the sense turned.

Rewritten in either way a problem keeps its size and its names, and it is as well formed as it was.
A negated constraint has the same points and, in the canonical direction, the same row. So the
problem has the same dual, down to the signs of its zeros: where the row is multiplied by minus one
before, it is multiplied by one after.
-/

namespace LinearProgramming

open Scalar

theorem map_modify {β γ : Type} {f : β → β} {g : β → γ} {l : List β} {i : ℕ}
    (h : ∀ b, l[i]? = some b → g (f b) = g b) : (l.modify i f).map g = l.map g := by
  refine List.ext_getElem? fun k ↦ ?_
  rw [List.getElem?_map, List.getElem?_map, List.getElem?_modify]
  cases hk : l[k]? with
  | none => rfl
  | some b =>
    by_cases hik : i = k
    · simp only [if_pos hik, Option.map_eq_map, Option.map_some, h b (hik ▸ hk)]
    · simp only [if_neg hik, Option.map_eq_map, Option.map_some]

/-! ## Relations -/

namespace Relation

@[simp] theorem flipped_flipped (r : Relation) : r.flipped.flipped = r := by
  cases r <;> rfl

theorem flipped_eq_eq_iff {r : Relation} : r.flipped = .eq ↔ r = .eq := by
  cases r <;> decide

theorem flipped_eq_iff_ne {r canonical : Relation} (hr : r ≠ .eq) (hcanonical : canonical ≠ .eq) :
    r.flipped = canonical ↔ r ≠ canonical := by
  revert hr hcanonical
  cases r <;> cases canonical <;> decide

end Relation

theorem Sense.canonicalRelation_ne_eq (sense : Sense) : sense.canonicalRelation ≠ .eq := by
  cases sense <;> decide

variable {α : Type} [Scalar α]

/-! ## Negated constraints -/

namespace Constraint

def negated (con : Constraint α) : Constraint α where
  name := con.name
  coefficients := con.coefficients.map (-·)
  relation := con.relation.flipped
  rhs := -con.rhs

theorem validate_negated [LawfulNeg α] (con : Constraint α) (n i : ℕ) :
    con.negated.validate n i = con.validate n i := by
  rw [validate, validate, negated, List.length_map, LawfulNeg.isFinite_neg,
    any_not_isFinite_map_neg]
  rfl

private theorem neg_one_mul_neg [LawfulSign α] (x : α) : -1 * -x = 1 * x := by
  rw [LawfulSign.neg_mul_comm, LawfulNeg.neg_neg]

theorem oriented_negated [LawfulSign α] {canonical : Relation} (hcanonical : canonical ≠ .eq)
    {con : Constraint α} (h : con.relation ≠ .eq) :
    con.negated.oriented canonical = con.oriented canonical := by
  have hflipped : con.negated.relation = canonical ↔ con.relation ≠ canonical :=
    Relation.flipped_eq_iff_ne h hcanonical
  have hcoefficients : con.negated.coefficients = con.coefficients.map (-·) := rfl
  have hrhs : con.negated.rhs = -con.rhs := rfl
  rw [oriented, oriented, hcoefficients, hrhs, List.map_map]
  by_cases hrel : con.relation = canonical
  · rw [if_pos hrel, if_neg fun hback ↦ hflipped.mp hback hrel]
    exact Prod.ext (List.map_congr_left fun x _ ↦ neg_one_mul_neg x) (neg_one_mul_neg con.rhs)
  · rw [if_neg hrel, if_pos (hflipped.mpr hrel)]
    exact Prod.ext (List.map_congr_left fun x _ ↦ (LawfulSign.neg_mul_comm 1 x).symm)
      (LawfulSign.neg_mul_comm 1 con.rhs).symm

/-- **A negated constraint says the same**, at every point and up to every tolerance. -/
theorem isSatisfied_negated (con : Constraint ℚ) (x : List ℚ) (ε : ℚ) :
    con.negated.isSatisfied x ε = con.isSatisfied x ε := by
  have hlhs : con.negated.lhs x = -con.lhs x := dot_map_neg ..
  have hrhs : con.negated.rhs = -con.rhs := rfl
  have hrelation : con.negated.relation = con.relation.flipped := rfl
  rw [Bool.eq_iff_iff, isSatisfied_eq_true, isSatisfied_eq_true, hlhs, hrhs, hrelation]
  cases con.relation with
  | le =>
    change -con.rhs - ε ≤ -con.lhs x ↔ con.lhs x ≤ con.rhs + ε
    rw [← neg_add', neg_le_neg_iff]
  | ge =>
    change -con.lhs x ≤ -con.rhs + ε ↔ con.rhs - ε ≤ con.lhs x
    rw [neg_le, neg_add', neg_neg]
  | eq =>
    change |-con.lhs x - -con.rhs| ≤ ε ↔ |con.lhs x - con.rhs| ≤ ε
    rw [neg_sub_neg, abs_sub_comm]

end Constraint

namespace Problem

/-! ## One constraint negated -/

section NegateConstraint

/-- The problem with constraint `i` negated. A position past the end negates nothing. -/
def negateConstraint (p : Problem α) (i : ℕ) : Problem α :=
  { p with constraints := p.constraints.modify i Constraint.negated }

variable (p : Problem α) (i : ℕ)

theorem getElem?_constraints_negateConstraint (k : ℕ) : (p.negateConstraint i).constraints[k]?
    = p.constraints[k]?.map fun con ↦ if i = k then con.negated else con :=
  List.getElem?_modify ..

theorem numConstraints_negateConstraint :
    (p.negateConstraint i).numConstraints = p.numConstraints := List.length_modify ..

theorem constraintName_negateConstraint (k : ℕ) :
    (p.negateConstraint i).constraintName k = p.constraintName k := by
  rw [constraintName, constraintName, getElem?_constraints_negateConstraint]
  cases p.constraints[k]? with
  | none => rfl
  | some con =>
    by_cases hik : i = k
    · simp only [if_pos hik, Option.map_some]
      rfl
    · simp only [if_neg hik, Option.map_some]

private theorem validateRows_modify_negated [LawfulNeg α] (n k i : ℕ)
    (cons : List (Constraint α)) :
    validateRows n k (cons.modify i Constraint.negated) = validateRows n k cons := by
  induction cons generalizing k i with
  | nil => rw [List.modify_nil]
  | cons con cons ih =>
    cases i with
    | zero => rw [List.modify_zero_cons, validateRows, validateRows, Constraint.validate_negated]
    | succ i => rw [List.modify_succ_cons, validateRows, validateRows, ih]

theorem validate_negateConstraint [LawfulNeg α] :
    (p.negateConstraint i).validate = p.validate := by
  rw [validate, numConstraints_negateConstraint, negateConstraint, validateRows_modify_negated]
  rfl

/-- **The points are the same**, up to every tolerance. -/
theorem isFeasible_negateConstraint (p : Problem ℚ) (i : ℕ) (x : List ℚ) (ε : ℚ) :
    (p.negateConstraint i).isFeasible x ε = p.isFeasible x ε := by
  have hall : ∀ cons : List (Constraint ℚ), cons.all (·.isSatisfied x ε)
      = (cons.map (·.isSatisfied x ε)).all id := fun cons ↦ by rw [List.all_map]; rfl
  have hrows : (p.negateConstraint i).constraints.map (·.isSatisfied x ε)
      = p.constraints.map (·.isSatisfied x ε) :=
    map_modify fun con _ ↦ con.isSatisfied_negated x ε
  rw [isFeasible, isFeasible, hall, hrows, hall]
  rfl

private theorem findIdx?_negateConstraint :
    (p.negateConstraint i).constraints.findIdx? (·.relation = .eq)
      = p.constraints.findIdx? (·.relation = .eq) := by
  have hmap : ∀ cons : List (Constraint α), cons.findIdx? (·.relation = .eq)
      = (cons.map fun con ↦ decide (con.relation = .eq)).findIdx? id :=
    fun cons ↦ by rw [List.findIdx?_map]; rfl
  have hrows : (p.negateConstraint i).constraints.map (fun con ↦ decide (con.relation = .eq))
      = p.constraints.map fun con ↦ decide (con.relation = .eq) :=
    map_modify fun con _ ↦ decide_eq_decide.mpr Relation.flipped_eq_eq_iff
  rw [hmap, hrows, hmap]

theorem transposed_negateConstraint (rows : List (List α)) (bounds : List α) :
    (p.negateConstraint i).transposed rows bounds = p.transposed rows bounds := by
  simp only [transposed, numConstraints_negateConstraint, constraintName_negateConstraint]
  rfl

/-- **The dual is the same**, or there is none for the same reason. -/
theorem dual_negateConstraint [LawfulSign α] : (p.negateConstraint i).dual = p.dual := by
  rw [dual, validate_negateConstraint, findIdx?_negateConstraint, dual]
  cases p.validate with
  | error fault => rfl
  | ok _ =>
    cases hfind : p.constraints.findIdx? (·.relation = .eq) with
    | some k => rfl
    | none =>
      have hne : ∀ con ∈ p.constraints, con.relation ≠ .eq := fun con hcon ↦
        of_decide_eq_false (List.findIdx?_eq_none_iff.mp hfind con hcon)
      have hrows : (p.negateConstraint i).constraints.map (·.oriented p.sense.canonicalRelation)
          = p.constraints.map (·.oriented p.sense.canonicalRelation) :=
        map_modify fun con hcon ↦ Constraint.oriented_negated p.sense.canonicalRelation_ne_eq
          (hne con (List.mem_of_getElem? hcon))
      have hsense : (p.negateConstraint i).sense = p.sense := rfl
      simp only [transposed_negateConstraint, hsense, hrows]

end NegateConstraint

/-! ## The objective negated -/

section Mirrored

/-- The problem that asks for the opposite of the negated objective. -/
def mirrored (p : Problem α) : Problem α :=
  { p with sense := p.sense.opposite, objective := p.objective.map (-·) }

variable (p : Problem α)

theorem numVariables_mirrored : p.mirrored.numVariables = p.numVariables := List.length_map ..

theorem validate_mirrored [LawfulNeg α] : p.mirrored.validate = p.validate := by
  rw [validate, numVariables_mirrored, mirrored, any_not_isFinite_map_neg]
  rfl

end Mirrored

end Problem

end LinearProgramming
