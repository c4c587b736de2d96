import LinearProgramming.Proofs.Problem.Feasible

/-!
# Dual certificates

Prices on the constraints of a problem limit its objective. At a feasible point a constraint is
worth no more than its right-hand side at a price of the right sign, and the constraints together
are worth at least the objective if at their prices every variable takes from them no less than it
earns. What a variable takes beyond that is its reduced cost.

The signs are those of a maximization: an upper bound may have a price above zero, a lower bound one
below, and an equality any. A minimization has all signs turned.
-/

open Finset

namespace LinearProgramming

/-! ## Prices -/

/-- Whether a constraint with this relation may have the price `y` where the objective is to be made
large. -/
def Relation.AllowsPrice (relation : Relation) (y : ℚ) : Prop :=
  match relation with
  | .le => 0 ≤ y
  | .ge => y ≤ 0
  | .eq => True

theorem Relation.allowsPrice_flipped (relation : Relation) (y : ℚ) :
    relation.flipped.AllowsPrice y ↔ relation.AllowsPrice (-y) := by
  cases relation with
  | le => exact neg_nonneg.symm
  | ge => exact neg_nonpos.symm
  | eq => rfl

theorem Constraint.Holds.mul_lhs_le {con : Constraint ℚ} {x : List ℚ} (h : con.Holds x) {y : ℚ}
    (hy : con.relation.AllowsPrice y) : y * con.lhs x ≤ y * con.rhs := by
  rw [Constraint.Holds] at h
  cases hrel : con.relation with
  | le =>
    rw [hrel] at h hy
    exact mul_le_mul_of_nonneg_left h hy
  | ge =>
    rw [hrel] at h hy
    exact mul_le_mul_of_nonpos_left h hy
  | eq =>
    rw [hrel] at h
    rw [h]

theorem sum_dot_map_mul {n : ℕ} {cons : List (Constraint ℚ)}
    (hlen : ∀ con ∈ cons, con.coefficients.length = n) (y x : List ℚ) :
    ∑ j ∈ range n, Scalar.dot y (cons.map fun con ↦ cellAt con.coefficients j) * cellAt x j
      = Scalar.dot y (cons.map (·.lhs x)) := by
  induction cons generalizing y with
  | nil =>
    rw [List.map_nil, Scalar.dot_nil_right]
    exact sum_eq_zero fun j _ ↦ by rw [List.map_nil, Scalar.dot_nil_right, zero_mul]
  | cons con cons ih =>
    cases y with
    | nil => exact sum_eq_zero fun j _ ↦ by rw [Scalar.dot_nil_left, zero_mul]
    | cons a y =>
      have hterm : ∀ j, Scalar.dot (a :: y) ((con :: cons).map fun con ↦ cellAt con.coefficients j)
          * cellAt x j = a * (cellAt con.coefficients j * cellAt x j)
            + Scalar.dot y (cons.map fun con ↦ cellAt con.coefficients j) * cellAt x j := by
        intro j
        rw [List.map_cons, Scalar.dot_cons_cons]
        ring
      rw [sum_congr rfl fun j _ ↦ hterm j, sum_add_distrib, ← mul_sum,
        ih (fun con hcon ↦ hlen con (List.mem_cons_of_mem _ hcon)), List.map_cons,
        Scalar.dot_cons_cons, Constraint.lhs, Scalar.dot_eq_sum (hlen con List.mem_cons_self).le]

/-! ## Certificates -/

/-- That the prices `y` of the constraints and the reduced costs `r` of the variables show that no
feasible point has a better objective than `z`. -/
structure Problem.IsDualCertificate (p : Problem ℚ) (y r : List ℚ) (z : ℚ) : Prop where
  length_prices : y.length = p.numConstraints
  length_costs : r.length = p.numVariables
  /-- The right-hand sides are worth `z`. -/
  value : Scalar.dot y (p.constraints.map (·.rhs)) = z
  /-- A variable's reduced cost is what it takes from the constraints less what it earns. -/
  cost : ∀ j < p.numVariables, cellAt r j = p.sense.signed
    (Scalar.dot y (p.constraints.map fun con ↦ cellAt con.coefficients j) - cellAt p.objective j)
  cost_nonneg : ∀ j < p.numVariables, 0 ≤ cellAt r j
  /-- The price of each constraint has the sign that its relation asks for. -/
  price : ∀ (i : ℕ) (con : Constraint ℚ), p.constraints[i]? = some con →
    con.relation.AllowsPrice (p.sense.signed (cellAt y i))

namespace Problem.IsDualCertificate

variable {p : Problem ℚ} {y r x : List ℚ} {z : ℚ}

theorem signed_dot_lhs_le (h : p.IsDualCertificate y r z)
    (hholds : ∀ con ∈ p.constraints, con.Holds x) :
    p.sense.signed (Scalar.dot y (p.constraints.map (·.lhs x))) ≤ p.sense.signed z := by
  rw [← h.value, Sense.signed_eq, Sense.signed_eq, Scalar.dot_eq_sum le_rfl,
    Scalar.dot_eq_sum le_rfl, mul_sum, mul_sum]
  refine sum_le_sum fun i _ ↦ ?_
  cases hi : p.constraints[i]? with
  | none =>
    have hpast : ∀ f : Constraint ℚ → ℚ, cellAt (p.constraints.map f) i = 0 := fun f ↦
      cellAt_eq_zero (by rw [List.length_map]; exact List.getElem?_eq_none_iff.mp hi)
    rw [hpast, hpast]
  | some con =>
    rw [cellAt_map_of_getElem? hi, cellAt_map_of_getElem? hi, ← mul_assoc, ← mul_assoc,
      ← Sense.signed_eq]
    exact (hholds con (List.mem_of_getElem? hi)).mul_lhs_le (h.price i con hi)

/-- At the reduced costs a point costs what the constraints are worth at it beyond the objective. -/
theorem sum_cost_mul (hp : p.WellFormed) (h : p.IsDualCertificate y r z) (x : List ℚ) :
    ∑ j ∈ range p.numVariables, cellAt r j * cellAt x j
      = p.sense.signed (Scalar.dot y (p.constraints.map (·.lhs x)))
        - p.sense.signed (p.evaluate x) := by
  rw [← sum_dot_map_mul hp.length_coefficients, Problem.evaluate,
    Scalar.dot_eq_sum (n := p.numVariables) le_rfl, Sense.signed_eq, Sense.signed_eq, ← mul_sub,
    ← sum_sub_distrib, mul_sum]
  refine sum_congr rfl fun j hj ↦ ?_
  rw [h.cost j (mem_range.mp hj), Sense.signed_eq]
  ring

/-- **A certificate bounds the objective.** -/
theorem signed_evaluate_le (hp : p.WellFormed) (h : p.IsDualCertificate y r z)
    (hx : p.isFeasible x 0 = true) : p.sense.signed (p.evaluate x) ≤ p.sense.signed z := by
  obtain ⟨hlen, hnonneg, hholds⟩ := (p.isFeasible_zero_iff x).mp hx
  have hrows := h.signed_dot_lhs_le hholds
  have hcosts : 0 ≤ ∑ j ∈ range p.numVariables, cellAt r j * cellAt x j := by
    refine sum_nonneg fun j hj ↦ mul_nonneg (h.cost_nonneg j (mem_range.mp hj)) ?_
    exact (forall_mem_iff_cellAt hlen).mp hnonneg j (mem_range.mp hj)
  rw [h.sum_cost_mul hp] at hcosts
  linarith

end Problem.IsDualCertificate

end LinearProgramming
