import LinearProgramming.Proofs.Problem.Canonical
import LinearProgramming.Proofs.Problem.Certificate

/-!
# The symmetric dual

The points of the dual are the certificates of the problem. A price belongs to a row as it is
written and a dual variable to the row in its canonical direction, so the two differ by a sign
where a row points the other way; with the signs put right, a price that its row allows is a dual
variable that is not negative, and a reduced cost is the room of a dual constraint.

In the same way the certificates of the dual are points of the problem. There no sign has to be put
right, because the constraints of the dual all point the canonical way.

Both directions come down to products of signs: that of the problem's sense, that of a relation, and
that of a row's orientation, which is the product of the other two.
-/

open Finset

namespace LinearProgramming

/-! ## Signs -/

theorem Sense.sign_mul_sign (sense : Sense) : sense.sign * sense.sign = 1 := by
  cases sense <;> norm_num [Sense.sign]

theorem Sense.sign_opposite (sense : Sense) : sense.opposite.sign = -sense.sign := by
  cases sense with
  | maximize => rfl
  | minimize => exact (neg_neg 1).symm

theorem Sense.signed_opposite (sense : Sense) (z : ℚ) :
    sense.opposite.signed z = -sense.signed z := by
  rw [Sense.signed_eq, Sense.signed_eq, Sense.sign_opposite, neg_mul]

/-- The sign that a relation asks of its price. -/
def Relation.sign : Relation → ℚ
  | .le => 1
  | .ge => -1
  | .eq => 0

theorem Sense.sign_canonicalRelation (sense : Sense) :
    sense.canonicalRelation.sign = sense.sign := by
  cases sense <;> rfl

theorem Relation.allowsPrice_iff {relation : Relation} (h : relation ≠ .eq) (y : ℚ) :
    relation.AllowsPrice y ↔ 0 ≤ relation.sign * y := by
  cases relation with
  | le => rw [Relation.sign, one_mul]; rfl
  | ge => rw [Relation.sign, neg_one_mul, neg_nonneg]; rfl
  | eq => exact absurd rfl h

namespace Constraint

variable {con : Constraint ℚ}

theorem holds_iff_sign (h : con.relation ≠ .eq) (x : List ℚ) :
    con.Holds x ↔ 0 ≤ con.relation.sign * (con.rhs - con.lhs x) := by
  rw [Holds]
  cases hrel : con.relation with
  | le => rw [Relation.sign, one_mul, sub_nonneg]
  | ge => rw [Relation.sign, neg_one_mul, neg_sub, sub_nonneg]
  | eq => exact absurd hrel h

/-- The factor that brings a row into the canonical direction of a sense. -/
def orientation (sense : Sense) (con : Constraint ℚ) : ℚ :=
  if con.relation = sense.canonicalRelation then 1 else -1

/-- A row that has a direction points the canonical way if its relation has the sign of the
sense. -/
theorem orientation_eq (sense : Sense) (h : con.relation ≠ .eq) :
    con.orientation sense = sense.sign * con.relation.sign := by
  rw [orientation]
  cases sense <;> cases hrel : con.relation <;>
    simp_all [Sense.canonicalRelation, Sense.sign, Relation.sign]

end Constraint

/-! ## The dual of a problem -/

namespace Problem

variable {p : Problem ℚ}

def symmetricDual (p : Problem ℚ) : Problem ℚ :=
  p.transposed (p.constraints.map fun con ↦ (con.oriented p.sense.canonicalRelation).1)
    (p.constraints.map fun con ↦ (con.oriented p.sense.canonicalRelation).2)

/-- **Without equalities there is a dual.** -/
theorem dual_eq_ok (hp : p.WellFormed) (h : ∀ con ∈ p.constraints, con.relation ≠ .eq) :
    p.dual = .ok p.symmetricDual := dual_eq_transposed hp h

theorem objective_symmetricDual (p : Problem ℚ) : p.symmetricDual.objective
    = p.constraints.map fun con ↦ con.orientation p.sense * con.rhs := rfl

theorem numVariables_symmetricDual (p : Problem ℚ) :
    p.symmetricDual.numVariables = p.numConstraints := List.length_map ..

theorem numConstraints_symmetricDual (p : Problem ℚ) :
    p.symmetricDual.numConstraints = p.numVariables := List.length_mapIdx ..

theorem getElem?_constraints_symmetricDual {j : ℕ} (hj : j < p.numVariables) :
    p.symmetricDual.constraints[j]? = some
      { name := some (p.variableName j)
        coefficients := p.constraints.map fun con ↦
          con.orientation p.sense * cellAt con.coefficients j
        relation := p.sense.opposite.canonicalRelation
        rhs := cellAt p.objective j } := by
  have hcost : p.objective[j]? = some (cellAt p.objective j) := by
    rw [cellAt_eq_getElem hj]
    exact List.getElem?_eq_getElem hj
  have hcolumn : column (p.constraints.map fun con ↦ (con.oriented p.sense.canonicalRelation).1) j
      = p.constraints.map fun con ↦ con.orientation p.sense * cellAt con.coefficients j := by
    rw [column, List.map_map]
    refine List.map_congr_left fun con _ ↦ ?_
    exact cellAt_map (f := fun x ↦ con.orientation p.sense * x) (mul_zero _) _ j
  rw [symmetricDual, transposed, List.getElem?_mapIdx, hcost, hcolumn]
  rfl

/-! ## Prices and dual variables -/

/-- The prices of the rows as prices of the rows in their canonical direction: negated where a row
does not have the canonical relation. -/
def orient (p : Problem ℚ) (y : List ℚ) : List ℚ :=
  List.zipWith (fun con v ↦ if con.relation = p.sense.canonicalRelation then v else -v)
    p.constraints y

theorem length_orient {y : List ℚ} (hlen : y.length = p.numConstraints) :
    (p.orient y).length = p.numConstraints := by
  rw [orient, List.length_zipWith, hlen, numConstraints, min_self]

theorem cellAt_orient {y : List ℚ} {i : ℕ} {con : Constraint ℚ}
    (hi : p.constraints[i]? = some con) :
    cellAt (p.orient y) i = con.orientation p.sense * cellAt y i := by
  rw [cellAt, cellAt, orient, List.getElem?_zipWith, hi, Constraint.orientation]
  cases y[i]? with
  | none => exact (mul_zero _).symm
  | some v =>
    simp only [Option.getD_some]
    split_ifs
    · exact (one_mul v).symm
    · exact (neg_one_mul v).symm

theorem orient_orient {y : List ℚ} (hlen : y.length = p.numConstraints) :
    p.orient (p.orient y) = y := by
  have hsquare : ∀ con : Constraint ℚ, con.orientation p.sense * con.orientation p.sense = 1 := by
    intro con
    rw [Constraint.orientation]
    split_ifs <;> norm_num
  refine eq_of_cellAt (length_orient (length_orient hlen)) hlen fun i hi ↦ ?_
  have hcon : p.constraints[i]? = some p.constraints[i] := List.getElem?_eq_getElem hi
  rw [cellAt_orient hcon, cellAt_orient hcon, ← mul_assoc, hsquare, one_mul]

theorem dot_orient (p : Problem ℚ) (f : Constraint ℚ → ℚ) (y : List ℚ) :
    Scalar.dot (p.constraints.map fun con ↦ con.orientation p.sense * f con) (p.orient y)
      = Scalar.dot y (p.constraints.map f) := by
  rw [orient]
  induction p.constraints generalizing y with
  | nil => rw [List.map_nil, List.map_nil, Scalar.dot_nil_left, Scalar.dot_nil_right]
  | cons con cons ih =>
    cases y with
    | nil => rw [List.zipWith_nil_right, Scalar.dot_nil_left, Scalar.dot_nil_right]
    | cons v y =>
      rw [List.map_cons, List.map_cons, List.zipWith_cons_cons, Scalar.dot_cons_cons,
        Scalar.dot_cons_cons, ih, Constraint.orientation]
      split_ifs <;> ring

/-! ## Points of the dual are certificates -/

theorem evaluate_symmetricDual (p : Problem ℚ) (y : List ℚ) : p.symmetricDual.evaluate (p.orient y)
    = Scalar.dot y (p.constraints.map (·.rhs)) := p.dot_orient _ y

theorem holds_symmetricDual_iff {j : ℕ} (hj : j < p.numVariables) {con : Constraint ℚ}
    (hcon : p.symmetricDual.constraints[j]? = some con) (y : List ℚ) : con.Holds (p.orient y)
      ↔ 0 ≤ p.sense.signed (Scalar.dot y (p.constraints.map fun con ↦ cellAt con.coefficients j)
          - cellAt p.objective j) := by
  rw [getElem?_constraints_symmetricDual hj, Option.some_inj] at hcon
  subst hcon
  rw [Constraint.holds_iff_sign (Sense.canonicalRelation_ne_eq _), Sense.sign_canonicalRelation,
    Sense.sign_opposite, Constraint.lhs, p.dot_orient fun con ↦ cellAt con.coefficients j,
    Sense.signed_eq, neg_mul, ← mul_neg, neg_sub]

theorem cellAt_orient_nonneg_iff {i : ℕ} {con : Constraint ℚ} (hi : p.constraints[i]? = some con)
    (hne : con.relation ≠ .eq) (y : List ℚ) : 0 ≤ cellAt (p.orient y) i
      ↔ con.relation.AllowsPrice (p.sense.signed (cellAt y i)) := by
  rw [cellAt_orient hi, con.orientation_eq p.sense hne, Relation.allowsPrice_iff hne,
    Sense.signed_eq, mul_comm p.sense.sign, mul_assoc]

variable {y r : List ℚ} {z : ℚ}

/-- **Certificates are points of the dual**, once their prices are oriented. -/
theorem IsDualCertificate.isFeasible_orient (hne : ∀ con ∈ p.constraints, con.relation ≠ .eq)
    (h : p.IsDualCertificate y r z) : p.symmetricDual.isFeasible (p.orient y) 0 = true := by
  have hlen := length_orient h.length_prices
  rw [isFeasible_zero_iff, numVariables_symmetricDual, forall_mem_iff_cellAt hlen]
  refine ⟨hlen, fun i hi ↦ ?_, fun con hcon ↦ ?_⟩
  · have hcon : p.constraints[i]? = some p.constraints[i] := List.getElem?_eq_getElem hi
    exact (cellAt_orient_nonneg_iff hcon (hne _ (List.mem_of_getElem? hcon)) y).mpr
      (h.price i _ hcon)
  · obtain ⟨j, hj⟩ := List.mem_iff_getElem?.mp hcon
    have hlt : j < p.numVariables := by
      rw [← numConstraints_symmetricDual]
      exact (List.getElem?_eq_some_iff.mp hj).1
    rw [holds_symmetricDual_iff hlt hj, ← h.cost j hlt]
    exact h.cost_nonneg j hlt

/-- **Points of the dual are certificates.** -/
theorem exists_isDualCertificate (hne : ∀ con ∈ p.constraints, con.relation ≠ .eq)
    (hy : p.symmetricDual.isFeasible y 0 = true) :
    ∃ r, p.IsDualCertificate (p.orient y) r (p.symmetricDual.evaluate y) := by
  obtain ⟨hlen, hnonneg, hholds⟩ := (p.symmetricDual.isFeasible_zero_iff y).mp hy
  rw [numVariables_symmetricDual] at hlen
  have hback : p.orient (p.orient y) = y := orient_orient hlen
  -- The reduced costs are what the constraints of the dual leave unused.
  refine ⟨(List.range p.numVariables).map fun j ↦ p.sense.signed (Scalar.dot (p.orient y)
      (p.constraints.map fun con ↦ cellAt con.coefficients j) - cellAt p.objective j),
    length_orient hlen, by rw [List.length_map, List.length_range], ?_, fun j hj ↦ ?_,
    fun j hj ↦ ?_, fun i con hi ↦ ?_⟩
  · rw [← evaluate_symmetricDual, hback]
  · rw [cellAt_map_of_getElem? (List.getElem?_range hj)]
  · have hcon := getElem?_constraints_symmetricDual hj
    rw [cellAt_map_of_getElem? (List.getElem?_range hj), ← holds_symmetricDual_iff hj hcon, hback]
    exact hholds _ (List.mem_of_getElem? hcon)
  · rw [← cellAt_orient_nonneg_iff hi (hne con (List.mem_of_getElem? hi)), hback]
    exact (forall_mem_iff_cellAt hlen).mp hnonneg i (List.getElem?_eq_some_iff.mp hi).1

/-- **Weak duality.** No point of the problem is better than a point of the dual. -/
theorem signed_evaluate_le_symmetricDual (hp : p.WellFormed)
    (hne : ∀ con ∈ p.constraints, con.relation ≠ .eq) {x : List ℚ}
    (hx : p.isFeasible x 0 = true) (hy : p.symmetricDual.isFeasible y 0 = true) :
    p.sense.signed (p.evaluate x) ≤ p.sense.signed (p.symmetricDual.evaluate y) := by
  obtain ⟨r, hr⟩ := exists_isDualCertificate hne hy
  exact hr.signed_evaluate_le hp hx

/-! ## Certificates of the dual are points -/

theorem dot_constraints_symmetricDual (hp : p.WellFormed) {i : ℕ} {con : Constraint ℚ}
    (hi : p.constraints[i]? = some con) {x : List ℚ} (hlen : x.length = p.numVariables) :
    Scalar.dot x (p.symmetricDual.constraints.map fun con ↦ cellAt con.coefficients i)
      = con.orientation p.sense * con.lhs x := by
  rw [Constraint.lhs, Scalar.dot_eq_sum hlen.le,
    Scalar.dot_eq_sum (hp.length_coefficients con (List.mem_of_getElem? hi)).le, mul_sum]
  refine sum_congr rfl fun j hj ↦ ?_
  rw [cellAt_map_of_getElem? (getElem?_constraints_symmetricDual (mem_range.mp hj)),
    cellAt_map_of_getElem? hi]
  ring

theorem allowsPrice_canonicalRelation (sense : Sense) (v : ℚ) :
    sense.canonicalRelation.AllowsPrice (sense.signed v) ↔ 0 ≤ v := by
  rw [Relation.allowsPrice_iff sense.canonicalRelation_ne_eq, Sense.sign_canonicalRelation,
    Sense.signed_eq, ← mul_assoc, Sense.sign_mul_sign, one_mul]

/-- **Certificates of the dual are points of the problem.** -/
theorem IsDualCertificate.isFeasible_of_symmetricDual (hp : p.WellFormed)
    (hne : ∀ con ∈ p.constraints, con.relation ≠ .eq) {x : List ℚ}
    (h : p.symmetricDual.IsDualCertificate x r z) : p.isFeasible x 0 = true := by
  have hlen : x.length = p.numVariables := h.length_prices.trans p.numConstraints_symmetricDual
  rw [isFeasible_zero_iff, forall_mem_iff_cellAt hlen]
  refine ⟨hlen, fun j hj ↦ ?_, fun con hcon ↦ ?_⟩
  · exact (allowsPrice_canonicalRelation p.sense.opposite _).mp
      (h.price j _ (getElem?_constraints_symmetricDual hj))
  · obtain ⟨i, hi⟩ := List.mem_iff_getElem?.mp hcon
    have hlt : i < p.symmetricDual.numVariables := by
      rw [numVariables_symmetricDual]
      exact (List.getElem?_eq_some_iff.mp hi).1
    have hcost := h.cost_nonneg i hlt
    have hsense : p.symmetricDual.sense = p.sense.opposite := rfl
    rw [h.cost i hlt, dot_constraints_symmetricDual hp hi hlen, objective_symmetricDual,
      cellAt_map_of_getElem? hi, ← mul_sub, hsense, Sense.signed_eq, Sense.sign_opposite,
      con.orientation_eq p.sense (hne con hcon)] at hcost
    rw [Constraint.holds_iff_sign (hne con hcon)]
    calc (0 : ℚ) ≤ -p.sense.sign * (p.sense.sign * con.relation.sign * (con.lhs x - con.rhs)) :=
          hcost
      _ = p.sense.sign * p.sense.sign * (con.relation.sign * (con.rhs - con.lhs x)) := by ring
      _ = con.relation.sign * (con.rhs - con.lhs x) := by rw [Sense.sign_mul_sign, one_mul]

/-! ## Bounds on the objective -/

/-- **Weak duality, as it is read.** A point of the dual bounds the objective of the problem at all
its points: from above where the problem maximizes, from below where it minimizes. -/
theorem evaluate_le_of_dual {d : Problem ℚ} (h : p.dual = .ok d) {x : List ℚ}
    (hx : p.isFeasible x 0 = true) (hy : d.isFeasible y 0 = true) :
    (p.sense = .maximize → p.evaluate x ≤ d.evaluate y)
    ∧ (p.sense = .minimize → d.evaluate y ≤ p.evaluate x) := by
  obtain ⟨hp, hne⟩ := wellFormed_of_dual h
  obtain rfl : p.symmetricDual = d := Except.ok.inj ((dual_eq_ok hp hne).symm.trans h)
  have hle := signed_evaluate_le_symmetricDual hp hne hx hy
  refine ⟨fun hsense ↦ ?_, fun hsense ↦ ?_⟩
  · rwa [hsense] at hle
  · rw [hsense] at hle
    exact neg_le_neg_iff.mp hle

end Problem

/-- Three foods that have to hold enough of one nutrient and not too much of another. -/
def ration : Problem ℚ where
  sense := .minimize
  objective := [4, 3, 5]
  constraints := [⟨none, [2, 1, 3], .ge, 8⟩, ⟨none, [1, 1, 0], .le, 4⟩]
  variableNames := []

/-- The upper bound is negated in the dual, so its dual variable counts against the objective
there. -/
theorem evaluate_le_of_dual_ration : ∃ d, ration.dual = .ok d
    ∧ ration.isFeasible [2, 1, 1] 0 = true ∧ d.isFeasible [5 / 3, 1] 0 = true
    ∧ ration.evaluate [2, 1, 1] = 16 ∧ d.evaluate [5 / 3, 1] = 28 / 3
    ∧ d.evaluate [5 / 3, 1] ≤ ration.evaluate [2, 1, 1] := by
  have hx : ration.isFeasible [2, 1, 1] 0 = true := by decide +kernel
  have hy : ration.symmetricDual.isFeasible [5 / 3, 1] 0 = true := by decide +kernel
  have hdual : ration.dual = .ok ration.symmetricDual := by rfl
  exact ⟨_, hdual, hx, hy, by decide +kernel, by decide +kernel,
    (Problem.evaluate_le_of_dual hdual hx hy).2 rfl⟩

end LinearProgramming
