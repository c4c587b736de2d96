import LinearProgramming.Proofs.StandardForm.Points

/-!
# Exact feasibility

With tolerance zero the test of a point is the textbook one: a point is feasible if it has one value
per variable, none of them negative, and every constraint holds as it is written.

A problem counts its objective in its own sense. Signed values turn both senses into one, in which
the larger value is the better one.
-/

namespace LinearProgramming

/-! ## Points -/

/-- What a constraint says at a point. -/
def Constraint.Holds (con : Constraint ℚ) (x : List ℚ) : Prop :=
  match con.relation with
  | .le => con.lhs x ≤ con.rhs
  | .ge => con.rhs ≤ con.lhs x
  | .eq => con.lhs x = con.rhs

theorem Constraint.isSatisfied_zero_iff (con : Constraint ℚ) (x : List ℚ) :
    con.isSatisfied x 0 = true ↔ con.Holds x := by
  rw [con.isSatisfied_eq_true, Constraint.Holds]
  cases con.relation <;> simp [sub_eq_zero]

theorem Constraint.holds_iff_room_eq_zero {con : Constraint ℚ} (h : con.normalize.relation = .eq)
    (x : List ℚ) : con.Holds x ↔ con.normalize.room x = 0 := by
  rw [← con.isSatisfied_zero_iff, con.isSatisfied_iff, NormalRow.Allows, h]
  exact abs_nonpos_iff

/-- **With tolerance zero** a feasible point is one that is nowhere negative and at which every
constraint holds. -/
theorem Problem.isFeasible_zero_iff (p : Problem ℚ) (x : List ℚ) : p.isFeasible x 0 = true
    ↔ x.length = p.numVariables ∧ (∀ v ∈ x, 0 ≤ v) ∧ ∀ con ∈ p.constraints, con.Holds x := by
  rw [Problem.isFeasible, Bool.and_eq_true, Bool.and_eq_true, beq_iff_eq, List.all_eq_true,
    List.all_eq_true, and_assoc, neg_zero]
  simp only [decide_eq_true_iff, Constraint.isSatisfied_zero_iff]

/-! ## Fewer constraints -/

/-- The problem without the constraints at the given positions. -/
def Problem.removeConstraints (p : Problem ℚ) (positions : List ℕ) : Problem ℚ :=
  { p with constraints := (p.constraints.zipIdx.filter fun con ↦ con.2 ∉ positions).map (·.1) }

theorem Problem.mem_removeConstraints_iff {p : Problem ℚ} {positions : List ℕ}
    {con : Constraint ℚ} : con ∈ (p.removeConstraints positions).constraints
      ↔ ∃ i, p.constraints[i]? = some con ∧ i ∉ positions := by
  rw [removeConstraints, List.mem_map]
  constructor
  · rintro ⟨⟨con, i⟩, hmem, rfl⟩
    obtain ⟨hmem, hi⟩ := List.mem_filter.mp hmem
    exact ⟨i, List.mem_zipIdx_iff_getElem?.mp hmem, by simpa using hi⟩
  · rintro ⟨i, hcon, hi⟩
    exact ⟨(con, i), List.mem_filter.mpr
      ⟨List.mem_zipIdx_iff_getElem?.mpr hcon, by simpa using hi⟩, rfl⟩

theorem Problem.isFeasible_removeConstraints {p : Problem ℚ} {positions : List ℕ} {x : List ℚ}
    (h : (p.removeConstraints positions).isFeasible x 0 = true → ∀ i ∈ positions,
      ∀ con, p.constraints[i]? = some con → con.Holds x) :
    (p.removeConstraints positions).isFeasible x 0 = p.isFeasible x 0 := by
  rw [Bool.eq_iff_iff]
  constructor
  · intro hx
    obtain ⟨hlen, hnonneg, hrows⟩ := (isFeasible_zero_iff _ x).mp hx
    refine (p.isFeasible_zero_iff x).mpr ⟨hlen, hnonneg, fun con hcon ↦ ?_⟩
    obtain ⟨i, hi⟩ := List.mem_iff_getElem?.mp hcon
    by_cases hmem : i ∈ positions
    · exact h hx i hmem con hi
    · exact hrows con (mem_removeConstraints_iff.mpr ⟨i, hi, hmem⟩)
  · intro hx
    obtain ⟨hlen, hnonneg, hrows⟩ := (p.isFeasible_zero_iff x).mp hx
    refine (isFeasible_zero_iff _ x).mpr ⟨hlen, hnonneg, fun con hcon ↦ ?_⟩
    obtain ⟨i, hi, -⟩ := mem_removeConstraints_iff.mp hcon
    exact hrows con (List.mem_of_getElem? hi)

/-! ## Objective values -/

/-- That `a` is the better value of an objective. -/
def Sense.Better : Sense → ℚ → ℚ → Prop
  | .maximize, a, b => b < a
  | .minimize, a, b => a < b

theorem Sense.better_iff (sense : Sense) (a b : ℚ) :
    sense.Better a b ↔ sense.signed b < sense.signed a := by
  cases sense with
  | maximize => rfl
  | minimize => exact neg_lt_neg_iff.symm

/-- The factor by which a sense counts values. -/
def Sense.sign : Sense → ℚ
  | .maximize => 1
  | .minimize => -1

theorem Sense.signed_eq (sense : Sense) (z : ℚ) : sense.signed z = sense.sign * z := by
  cases sense with
  | maximize => exact (one_mul z).symm
  | minimize => exact (neg_one_mul z).symm

theorem Sense.signed_sub (sense : Sense) (a b : ℚ) :
    sense.signed (a - b) = sense.signed a - sense.signed b := by
  rw [Sense.signed_eq, Sense.signed_eq, Sense.signed_eq, mul_sub]

theorem Sense.signed_signed (sense : Sense) (z : ℚ) : sense.signed (sense.signed z) = z := by
  cases sense with
  | maximize => rfl
  | minimize => exact neg_neg z

end LinearProgramming
