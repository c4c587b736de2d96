import LinearProgramming.Problem.Feasible
import LinearProgramming.Proofs.StandardForm.Layout
import Mathlib.Algebra.Order.Group.Abs

/-!
# Points of a problem and solutions of its standard form

A point of the problem and a solution of the standard form that agree on the variables say the same
about every constraint: the columns that belong to a row add up to the *room* the row has at the
point. A feasible point therefore extends to a solution that is nowhere negative and has no
artificial variable above zero, and such a solution restricts to a feasible point.

Turning a constraint so that its right-hand side is not negative changes neither side of this: room
is measured in the direction in which the row may have it.
-/

open Finset

namespace LinearProgramming

/-! ## Room -/

namespace NormalRow

/-- What a row leaves unused at `x`, or exceeds its right-hand side by if it is a lower bound. -/
def room (row : NormalRow ℚ) (x : List ℚ) : ℚ :=
  match row.relation with
  | .ge => Scalar.dot row.coefficients x - row.rhs
  | _ => row.rhs - Scalar.dot row.coefficients x

/-- Whether a row may have that much room, up to `ε`. -/
def Allows (row : NormalRow ℚ) (ε room : ℚ) : Prop :=
  match row.relation with
  | .eq => |room| ≤ ε
  | _ => -ε ≤ room

/-- What a slack or surplus and an artificial variable contribute to the room of their row. -/
def filledBy (row : NormalRow ℚ) (auxiliary artificial : ℚ) : ℚ :=
  match row.relation with
  | .le => auxiliary
  | .ge => auxiliary - artificial
  | .eq => artificial

end NormalRow

theorem Constraint.isSatisfied_eq_true (con : Constraint ℚ) (x : List ℚ) (ε : ℚ) :
    con.isSatisfied x ε = true ↔ match con.relation with
      | .le => con.lhs x ≤ con.rhs + ε
      | .ge => con.rhs - ε ≤ con.lhs x
      | .eq => |con.lhs x - con.rhs| ≤ ε := by
  rw [Constraint.isSatisfied]
  cases con.relation with
  | le => exact decide_eq_true_iff
  | ge => exact decide_eq_true_iff
  | eq => rw [decide_eq_true_iff, Scalar.abs_eq]

/-- **Turning a constraint keeps its meaning**, at every point and up to every tolerance. -/
theorem Constraint.isSatisfied_iff (con : Constraint ℚ) (x : List ℚ) (ε : ℚ) :
    con.isSatisfied x ε = true ↔ con.normalize.Allows ε (con.normalize.room x) := by
  rw [Constraint.isSatisfied_eq_true]
  obtain ⟨name, coefficients, relation, rhs⟩ := con
  rw [Constraint.normalize]
  -- A row that was turned has both sides negated and the relation turned round with them.
  split_ifs with hneg
  · cases relation with
    | le =>
      simp only [NormalRow.Allows, NormalRow.room, Relation.flipped, Constraint.lhs,
        Scalar.dot_map_neg]
      constructor <;> intro h <;> linarith
    | ge =>
      simp only [NormalRow.Allows, NormalRow.room, Relation.flipped, Constraint.lhs,
        Scalar.dot_map_neg]
      constructor <;> intro h <;> linarith
    | eq =>
      simp only [NormalRow.Allows, NormalRow.room, Relation.flipped, Constraint.lhs,
        Scalar.dot_map_neg]
      rw [show -rhs - -Scalar.dot coefficients x = Scalar.dot coefficients x - rhs from by ring]
  · cases relation with
    | le =>
      simp only [NormalRow.Allows, NormalRow.room, Constraint.lhs]
      constructor <;> intro h <;> linarith
    | ge =>
      simp only [NormalRow.Allows, NormalRow.room, Constraint.lhs]
      constructor <;> intro h <;> linarith
    | eq =>
      simp only [NormalRow.Allows, NormalRow.room, Constraint.lhs]
      rw [abs_sub_comm]

theorem Constraint.room_normalize (con : Constraint ℚ) (x : List ℚ) :
    con.normalize.room x = con.rhs - con.lhs x
      ∨ con.normalize.room x = -(con.rhs - con.lhs x) := by
  obtain ⟨name, coefficients, relation, rhs⟩ := con
  rw [normalize]
  split_ifs
  · cases relation with
    | le => left; simp only [NormalRow.room, Relation.flipped, lhs, Scalar.dot_map_neg]; ring
    | ge => right; simp only [NormalRow.room, Relation.flipped, lhs, Scalar.dot_map_neg]; ring
    | eq => right; simp only [NormalRow.room, Relation.flipped, lhs, Scalar.dot_map_neg]; ring
  · cases relation with
    | le => left; rfl
    | ge => right; simp only [NormalRow.room, lhs]; ring
    | eq => left; rfl

theorem Constraint.room_normalize_le (con : Constraint ℚ) (x : List ℚ) :
    con.normalize.room x ≤ |con.rhs - con.lhs x| := by
  rcases con.room_normalize x with h | h
  · exact h ▸ le_abs_self _
  · exact h ▸ neg_le_abs _

theorem Constraint.room_normalize_eq_zero_iff (con : Constraint ℚ) (x : List ℚ) :
    con.normalize.room x = 0 ↔ con.lhs x = con.rhs := by
  rcases con.room_normalize x with h | h
  · rw [h, sub_eq_zero, eq_comm]
  · rw [h, neg_eq_zero, sub_eq_zero, eq_comm]

theorem Constraint.hasAuxiliary_normalize (con : Constraint ℚ) :
    con.normalize.relation.hasAuxiliary = decide (con.relation ≠ .eq) := by
  obtain ⟨name, coefficients, relation, rhs⟩ := con
  rw [normalize]
  split_ifs <;> cases relation <;> rfl

theorem Constraint.normalize_relation_eq_iff (con : Constraint ℚ) :
    con.normalize.relation = .eq ↔ con.relation = .eq := by
  have h := con.hasAuxiliary_normalize
  rw [Relation.hasAuxiliary, decide_eq_decide] at h
  exact not_iff_not.mp h

theorem Problem.isFeasible_iff (p : Problem ℚ) (x : List ℚ) (ε : ℚ) :
    p.isFeasible x ε = true ↔ x.length = p.numVariables ∧ (∀ v ∈ x, -ε ≤ v)
      ∧ ∀ row ∈ p.normalRows, row.Allows ε (row.room x) := by
  rw [Problem.isFeasible, Bool.and_eq_true, Bool.and_eq_true, beq_iff_eq, List.all_eq_true,
    List.all_eq_true, and_assoc, Problem.normalRows, List.forall_mem_map]
  simp only [decide_eq_true_iff, Constraint.isSatisfied_iff]

/-! ## Solutions of the standard form -/

namespace StandardForm

/-- The assignment `u` of the columns solves every row of the standard form. -/
def Holds (form : StandardForm ℚ) (u : ℕ → ℚ) : Prop :=
  ∀ row ∈ form.rows, ∑ c ∈ range form.numColumns, cellAt row.coefficients c * u c = row.rhs

/-- The assignment `u` takes the values `x` at the variables of the problem. -/
def Extends (p : Problem ℚ) (u : ℕ → ℚ) (x : List ℚ) : Prop :=
  ∀ c < p.numVariables, u c = cellAt x c

/-- The values that the assignment `u` takes at the variables of the problem. -/
def point (p : Problem ℚ) (u : ℕ → ℚ) : List ℚ := (List.range p.numVariables).map u

section

variable {p : Problem ℚ} {u : ℕ → ℚ} {x : List ℚ}

theorem length_point (p : Problem ℚ) (u : ℕ → ℚ) : (point p u).length = p.numVariables := by
  rw [point, List.length_map, List.length_range]

theorem extends_point (p : Problem ℚ) (u : ℕ → ℚ) : Extends p u (point p u) := by
  intro c hc
  rw [cellAt_eq_getElem (by rwa [length_point])]
  simp [point]

theorem holds_iff_getElem? {form : StandardForm ℚ} : form.Holds u ↔
    ∀ (i : ℕ) (placed : StandardRow ℚ), form.rows[i]? = some placed →
      ∑ c ∈ range form.numColumns, cellAt placed.coefficients c * u c = placed.rhs := by
  constructor
  · intro h i placed hi
    exact h placed (List.mem_of_getElem? hi)
  · intro h placed hplaced
    obtain ⟨i, hi⟩ := List.mem_iff_getElem?.mp hplaced
    exact h i placed hi

theorem sum_mul_of_extends (hx : Extends p u x) {cells : List ℚ}
    (hlen : cells.length = p.numVariables) :
    ∑ c ∈ range (ofWellFormed p).numColumns, cellAt cells c * u c = Scalar.dot cells x := by
  have hle : cells.length ≤ (ofWellFormed p).numColumns := by
    rw [hlen]
    exact numVariables_le_numColumns p
  rw [Scalar.dot_eq_sum hle]
  refine sum_congr rfl fun c _ ↦ ?_
  by_cases hc : c < p.numVariables
  · rw [hx c hc]
  · rw [cellAt_eq_zero (by omega), zero_mul, zero_mul]

theorem sum_placed (hp : p.WellFormed) (hx : Extends p u x) {i : ℕ} {row : NormalRow ℚ}
    (hi : p.normalRows[i]? = some row) {placed : StandardRow ℚ}
    (hrow : (ofWellFormed p).rows[i]? = some placed) :
    ∑ c ∈ range (ofWellFormed p).numColumns, cellAt placed.coefficients c * u c
      = Scalar.dot row.coefficients x
        + (if row.relation.hasAuxiliary then row.auxiliaryCoefficient * u (p.auxiliaryOf i) else 0)
        + (if row.relation.hasArtificial then u (p.artificialOf i) else 0) := by
  -- Each column that is not the row's own contributes what the row's coefficients give it.
  have hterm : ∀ c ∈ range (ofWellFormed p).numColumns, cellAt placed.coefficients c * u c
      = cellAt row.coefficients c * u c
        + (if c = p.auxiliaryOf i then
            if row.relation.hasAuxiliary then row.auxiliaryCoefficient * u (p.auxiliaryOf i) else 0
          else 0)
        + (if c = p.artificialOf i then
            if row.relation.hasArtificial then u (p.artificialOf i) else 0
          else 0) := by
    intro c hc
    rw [cellAt_placed hp hi hrow (mem_range.mp hc)]
    split_ifs <;> simp_all [add_mul]
  rw [sum_congr rfl hterm, sum_add_distrib, sum_add_distrib,
    sum_mul_of_extends hx (length_normalRow hp hi), sum_ite_eq', sum_ite_eq']
  congr 1
  · congr 1
    split_ifs with hmem haux
    · rfl
    · rfl
    · rename_i haux
      exact absurd (mem_range.mpr (auxiliaryOf_lt_numColumns hi haux)) hmem
    · rfl
  · split_ifs with hmem hart
    · rfl
    · rfl
    · rename_i hart
      exact absurd (mem_range.mpr (artificialOf_lt_numColumns hi hart)) hmem
    · rfl

/-- **Solutions of the standard form.** An extension of a point solves the rows exactly where each
row's own columns make up its room at the point. -/
theorem holds_iff_room (hp : p.WellFormed) (hx : Extends p u x) :
    (ofWellFormed p).Holds u ↔ ∀ (i : ℕ) (row : NormalRow ℚ), p.normalRows[i]? = some row →
      row.room x = row.filledBy (u (p.auxiliaryOf i)) (u (p.artificialOf i)) := by
  have hkey : ∀ (i : ℕ) (row : NormalRow ℚ) (placed : StandardRow ℚ),
      p.normalRows[i]? = some row → (ofWellFormed p).rows[i]? = some placed →
      (∑ c ∈ range (ofWellFormed p).numColumns, cellAt placed.coefficients c * u c = placed.rhs
        ↔ row.room x = row.filledBy (u (p.auxiliaryOf i)) (u (p.artificialOf i))) := by
    intro i row placed hi hrow
    have hrhs : placed.rhs = row.rhs := by
      rw [getElem?_rows_ofWellFormed, hi, Option.map_some, Option.some_inj] at hrow
      rw [← hrow]
      rfl
    rw [sum_placed hp hx hi hrow, hrhs, NormalRow.room, NormalRow.filledBy,
      NormalRow.auxiliaryCoefficient]
    cases row.relation <;> simp [Relation.hasAuxiliary, Relation.hasArtificial] <;>
      constructor <;> intro h <;> linarith
  rw [holds_iff_getElem?]
  constructor
  · intro h i row hi
    have hrow := getElem?_rows_ofWellFormed p i
    rw [hi, Option.map_some] at hrow
    exact (hkey i row _ hi hrow).mp (h i _ hrow)
  · intro h i placed hrow
    have hsome := hrow
    rw [getElem?_rows_ofWellFormed, Option.map_eq_some_iff] at hsome
    obtain ⟨row, hi, -⟩ := hsome
    exact (hkey i row placed hi hrow).mpr (h i row hi)

/-- The artificial variables are all zero. -/
def Genuine (form : StandardForm ℚ) (u : ℕ → ℚ) : Prop :=
  ∀ c, form.isArtificial c = true → u c = 0

/-- A point together with what its rows leave unused, and no artificial variable. -/
def extension (p : Problem ℚ) (x : List ℚ) (c : ℕ) : ℚ :=
  match (ofWellFormed p).columns[c]? with
  | some (.structural j) => cellAt x j
  | some (.slack i) | some (.surplus i) => (p.normalRows[i]?.map (·.room x)).getD 0
  | _ => 0

theorem extends_extension (p : Problem ℚ) (x : List ℚ) : Extends p (extension p x) x := by
  intro c hc
  rw [extension, getElem?_columns_structural hc]

theorem genuine_extension (p : Problem ℚ) (x : List ℚ) :
    (ofWellFormed p).Genuine (extension p x) := by
  intro c hc
  rw [isArtificial] at hc
  rw [extension]
  split at hc
  · rename_i h
    rw [h]
  · exact absurd hc (by simp)

theorem extension_auxiliaryOf {i : ℕ} {row : NormalRow ℚ} (hi : p.normalRows[i]? = some row)
    (haux : row.relation.hasAuxiliary = true) : extension p x (p.auxiliaryOf i) = row.room x := by
  have hcol := getElem?_columns_auxiliaryOf hi haux
  rw [extension, hcol, NormalRow.auxiliaryColumn?]
  cases hrel : row.relation with
  | le => simp [hi]
  | ge => simp [hi]
  | eq => rw [hrel] at haux; exact absurd haux (by decide)

/-- The extension of a point, with what its equalities lack made up by their artificial variables,
and the other artificial variables raised to `g` together with the surpluses of their rows. -/
def completion (p : Problem ℚ) (x : List ℚ) (g : ℕ → ℚ) (c : ℕ) : ℚ :=
  match (ofWellFormed p).columns[c]? with
  | some (.artificial i) =>
    (p.normalRows[i]?.map fun row ↦ if row.relation = .eq then row.room x else g i).getD 0
  | some (.surplus i) => extension p x c + g i
  | _ => extension p x c

theorem completion_artificialOf {i : ℕ} {row : NormalRow ℚ} (hi : p.normalRows[i]? = some row)
    (hart : row.relation.hasArtificial = true) (g : ℕ → ℚ) :
    completion p x g (p.artificialOf i) = if row.relation = .eq then row.room x else g i := by
  rw [completion, getElem?_columns_artificialOf hi hart]
  simp only [hi]
  rfl

/-- **Every point completes** to solutions of the standard form, feasible or not. -/
theorem holds_completion (hp : p.WellFormed) (x : List ℚ) (g : ℕ → ℚ) :
    (ofWellFormed p).Holds (completion p x g) := by
  have hextends : Extends p (completion p x g) x := fun c hc ↦ by
    rw [completion, getElem?_columns_structural hc]
    exact extends_extension p x c hc
  rw [holds_iff_room hp hextends]
  intro i row hi
  rw [NormalRow.filledBy]
  cases hrel : row.relation with
  | le =>
    have haux : row.relation.hasAuxiliary = true := by rw [hrel]; rfl
    rw [completion, getElem?_columns_auxiliaryOf hi haux, NormalRow.auxiliaryColumn?, hrel]
    exact (extension_auxiliaryOf hi haux).symm
  | ge =>
    have haux : row.relation.hasAuxiliary = true := by rw [hrel]; rfl
    have hcol := getElem?_columns_auxiliaryOf hi haux
    rw [NormalRow.auxiliaryColumn?, hrel] at hcol
    rw [completion_artificialOf hi (by rw [hrel]; rfl), if_neg (by rw [hrel]; decide), completion,
      hcol, extension_auxiliaryOf hi haux, add_sub_cancel_right]
  | eq => rw [completion_artificialOf hi (by rw [hrel]; rfl), if_pos hrel]

private theorem room_nonneg {row : NormalRow ℚ} (h : row.Allows 0 (row.room x)) :
    0 ≤ row.room x := by
  rw [NormalRow.Allows] at h
  split at h
  · exact (abs_nonpos_iff.mp h).ge
  · rwa [neg_zero] at h

/-- **Feasible points extend.** What the rows leave unused fills the slacks and surpluses, and the
artificial variables are not needed. -/
theorem extension_of_isFeasible (hp : p.WellFormed) (h : p.isFeasible x 0 = true) :
    (ofWellFormed p).Holds (extension p x) ∧ ∀ c, 0 ≤ extension p x c := by
  obtain ⟨hlen, hnonneg, hrows⟩ := (p.isFeasible_iff x 0).mp h
  constructor
  · have hnothing : completion p x 0 = extension p x := by
      funext c
      cases hc : (ofWellFormed p).isArtificial c with
      | false =>
        rw [completion]
        split
        · rename_i hcol
          rw [isArtificial, hcol] at hc
          exact absurd hc (by simp)
        · exact add_zero _
        · rfl
      | true =>
        rw [genuine_extension p x c hc]
        obtain ⟨i, row, hi, hart, rfl⟩ := exists_of_isArtificial hc
        rw [completion_artificialOf hi hart]
        split_ifs with hrel
        · have hallows := hrows row (List.mem_of_getElem? hi)
          rw [NormalRow.Allows, hrel] at hallows
          exact abs_nonpos_iff.mp hallows
        · rfl
    exact hnothing ▸ holds_completion hp x 0
  · intro c
    rw [extension]
    have hroom : ∀ i : ℕ, 0 ≤ (p.normalRows[i]?.map (·.room x)).getD 0 := by
      intro i
      cases hi : p.normalRows[i]? with
      | none => exact le_refl 0
      | some row => exact room_nonneg (hrows row (List.mem_of_getElem? hi))
    split
    · rename_i j _
      by_cases hj : j < x.length
      · have hmem := hnonneg x[j] (List.getElem_mem hj)
        rwa [neg_zero, ← cellAt_eq_getElem hj] at hmem
      · rw [cellAt_eq_zero (not_lt.mp hj)]
    · exact hroom _
    · exact hroom _
    · exact le_refl 0

/-- **Genuine solutions restrict.** A solution of the standard form that is nowhere negative and
uses no artificial variable is a feasible point with its unused room. -/
theorem isFeasible_of_holds (hp : p.WellFormed) (hlen : x.length = p.numVariables)
    (hx : Extends p u x) (hu : (ofWellFormed p).Holds u) (hnonneg : ∀ c, 0 ≤ u c)
    (hgenuine : (ofWellFormed p).Genuine u) : p.isFeasible x 0 = true := by
  rw [Problem.isFeasible_iff, neg_zero, forall_mem_iff_cellAt hlen]
  refine ⟨hlen, fun c hc ↦ ?_, fun row hrow ↦ ?_⟩
  · rw [← hx c hc]
    exact hnonneg c
  · obtain ⟨i, hi⟩ := List.mem_iff_getElem?.mp hrow
    have hroom := (holds_iff_room hp hx).mp hu i row hi
    have hart : row.relation.hasArtificial = true → u (p.artificialOf i) = 0 :=
      fun hart ↦ hgenuine _ (isArtificial_artificialOf hi hart)
    rw [NormalRow.Allows]
    rw [NormalRow.filledBy] at hroom
    cases hrel : row.relation with
    | le =>
      rw [hrel] at hroom
      rw [hroom, neg_zero]
      exact hnonneg _
    | ge =>
      rw [hrel] at hroom hart
      rw [hroom, hart rfl, sub_zero, neg_zero]
      exact hnonneg _
    | eq =>
      rw [hrel] at hroom hart
      rw [hroom, hart rfl, abs_zero]

end

/-! ## What the objectives are worth -/

/-- The costs that a phase maximizes. -/
def costs (form : StandardForm ℚ) : Phase → List ℚ
  | .one => Tableau.phaseOneCosts form
  | .two => Tableau.phaseTwoCosts form

/-- What the objective of a phase is worth at an assignment of the columns. -/
def worth (form : StandardForm ℚ) (phase : Phase) (u : ℕ → ℚ) : ℚ :=
  ∑ c ∈ range form.numColumns, cellAt (form.costs phase) c * u c

theorem cellAt_costs_one (form : StandardForm ℚ) {c : ℕ} (hc : c < form.numColumns) :
    cellAt (form.costs .one) c = if form.isArtificial c then -1 else 0 := by
  have hcost : (form.costs .one)[c]? = some (if form.isArtificial c then -1 else 0) := by
    rw [costs, Tableau.phaseOneCosts, List.getElem?_map, List.getElem?_range hc]
    rfl
  rw [cellAt, hcost, Option.getD_some]

/-- In phase one an assignment is worth the negated sum of its artificial variables. -/
theorem worth_one (form : StandardForm ℚ) (u : ℕ → ℚ) :
    form.worth .one u = -∑ c ∈ range form.numColumns, if form.isArtificial c then u c else 0 := by
  rw [worth, ← sum_neg_distrib]
  refine sum_congr rfl fun c hc ↦ ?_
  rw [cellAt_costs_one form (mem_range.mp hc)]
  split_ifs
  · exact neg_one_mul _
  · rw [zero_mul, neg_zero]

theorem worth_one_nonpos {form : StandardForm ℚ} {u : ℕ → ℚ} (hu : ∀ c, 0 ≤ u c) :
    form.worth .one u ≤ 0 := by
  rw [worth_one, neg_nonpos]
  refine sum_nonneg fun c _ ↦ ?_
  split_ifs
  · exact hu c
  · exact le_refl 0

theorem worth_one_of_genuine {form : StandardForm ℚ} {u : ℕ → ℚ} (hu : form.Genuine u) :
    form.worth .one u = 0 := by
  rw [worth_one, neg_eq_zero]
  refine sum_eq_zero fun c _ ↦ ?_
  split_ifs with hc
  · exact hu c hc
  · rfl

theorem eq_zero_of_worth_one_eq_zero {form : StandardForm ℚ} {u : ℕ → ℚ} (hu : ∀ c, 0 ≤ u c)
    (h : form.worth .one u = 0) {c : ℕ} (hc : c < form.numColumns)
    (hart : form.isArtificial c = true) : u c = 0 := by
  rw [worth_one, neg_eq_zero, sum_eq_zero_iff_of_nonneg] at h
  · have hterm := h c (mem_range.mpr hc)
    rwa [if_pos hart] at hterm
  · intro d _
    split_ifs
    · exact hu d
    · exact le_refl 0

end StandardForm

/-- A value as the maximized form counts it. -/
def Sense.signed : Sense → ℚ → ℚ
  | .maximize, z => z
  | .minimize, z => -z

namespace StandardForm

theorem cellAt_objective (p : Problem ℚ) (c : ℕ) :
    cellAt (ofWellFormed p).objective c = p.sense.signed (cellAt p.objective c) := by
  rw [ofWellFormed]
  cases p.sense with
  | maximize => rfl
  | minimize => exact cellAt_map (f := fun x ↦ -x) neg_zero ..

theorem cellAt_costs_two (form : StandardForm ℚ) (c : ℕ) :
    cellAt (form.costs .two) c = cellAt form.objective c := by
  rw [costs, Tableau.phaseTwoCosts]
  by_cases hc : c < form.objective.length
  · exact cellAt_append_left hc
  · rw [cellAt_append_right (not_lt.mp hc), cellAt_eq_zero (not_lt.mp hc), cellAt]
    rw [List.getElem?_replicate]
    split_ifs <;> rfl

theorem worth_two_eq_dot (p : Problem ℚ) {u : ℕ → ℚ} {x : List ℚ} (hx : Extends p u x) :
    (ofWellFormed p).worth .two u = Scalar.dot (ofWellFormed p).objective x := by
  rw [worth, sum_congr rfl fun c _ ↦ by rw [cellAt_costs_two],
    sum_mul_of_extends hx (length_objective p)]

/-- In phase two an assignment is worth the costs at its structural columns. -/
theorem worth_two_eq_sum (p : Problem ℚ) (u : ℕ → ℚ) : (ofWellFormed p).worth .two u
    = ∑ c ∈ range p.numVariables, cellAt (ofWellFormed p).objective c * u c := by
  rw [worth_two_eq_dot p (extends_point p u), Scalar.dot_eq_sum (length_objective p).le]
  refine sum_congr rfl fun c hc ↦ ?_
  rw [extends_point p u c (mem_range.mp hc)]

end StandardForm

/-- **In phase two an extension of a point is worth the objective at the point**, counted as the
sense demands. -/
theorem StandardForm.worth_two {p : Problem ℚ} {u : ℕ → ℚ} {x : List ℚ} (hx : Extends p u x) :
    (ofWellFormed p).worth .two u = p.sense.signed (p.evaluate x) := by
  rw [worth_two_eq_dot p hx, ofWellFormed]
  cases p.sense with
  | maximize => rfl
  | minimize => exact Scalar.dot_map_neg ..

end LinearProgramming
