import LinearProgramming.Proofs.Problem.Signs
import LinearProgramming.Proofs.Scalar.DoubleSigns

/-!
# Canonical rows

Without equalities every row can be brought into the canonical direction of the problem's sense, as
it is or negated, and the dual is made of the rows there: it is the transposed table, with the costs
and the right-hand sides exchanged. All its own rows are canonical as they are. So the dual of the
dual, transposed once more, has the rows of the problem in their canonical direction.

The names do not come back, but are built upon. A dual names its constraints by the variables of the
problem, and makes the names of its variables from those of the constraints.

## Multiplication by one

A row is brought into its direction by multiplying it by one or by minus one. That this leaves it as
it is, or negates it, is all that is asked of the arithmetic, so nothing is rounded on the way.
-/

namespace LinearProgramming

open Scalar

theorem Sense.opposite_opposite (sense : Sense) : sense.opposite.opposite = sense := by
  cases sense <;> rfl

variable {α : Type} [Scalar α]

/-! ## Canonical rows -/

namespace Constraint

/-- The constraint in the canonical direction of a sense: as it is where it points that way, and
negated where it does not. -/
def canonical (sense : Sense) (con : Constraint α) : Constraint α :=
  if con.relation = sense.canonicalRelation then con else con.negated

variable {sense : Sense} {con : Constraint α}

theorem canonical_of_relation_eq (h : con.relation = sense.canonicalRelation) :
    con.canonical sense = con := if_pos h

theorem relation_canonical (h : con.relation ≠ .eq) :
    (con.canonical sense).relation = sense.canonicalRelation := by
  rw [canonical]
  split_ifs with hrel
  · exact hrel
  · exact (Relation.flipped_eq_iff_ne h sense.canonicalRelation_ne_eq).mpr hrel

theorem canonical_cases {P : Constraint α → Prop} (h : P con) (hneg : P con.negated) :
    P (con.canonical sense) := by
  rw [canonical]
  split_ifs
  · exact h
  · exact hneg

/-- Multiplying by one or by minus one brings a row into its canonical direction. -/
theorem oriented_eq_canonical [LawfulSign α] (sense : Sense) (con : Constraint α) :
    con.oriented sense.canonicalRelation
      = ((con.canonical sense).coefficients, (con.canonical sense).rhs) := by
  rw [oriented, canonical]
  split_ifs
  · refine Prod.ext ?_ (LawfulSign.one_mul con.rhs)
    exact (List.map_congr_left fun x _ ↦ LawfulSign.one_mul x).trans con.coefficients.map_id
  · exact Prod.ext (List.map_congr_left fun x _ ↦ neg_one_mul x) (neg_one_mul con.rhs)

end Constraint

/-! ## Transposing a table -/

namespace Problem

theorem column_map_column {rows : List (List α)} {i n : ℕ} {row : List α}
    (hrow : rows[i]? = some row) (hlen : row.length = n) :
    column ((List.range n).map (column rows)) i = row := by
  subst hlen
  refine List.ext_getElem (by rw [column, List.length_map, List.length_map, List.length_range])
    fun j _ hj ↦ ?_
  simp only [column, List.getElem_map, List.getElem_range, List.getElem?_map, hrow,
    Option.map_some, Option.getD_some, List.getElem?_eq_getElem hj]

variable (p : Problem α) (rows : List (List α)) (bounds : List α)

theorem numConstraints_transposed : (p.transposed rows bounds).numConstraints = p.numVariables :=
  List.length_mapIdx ..

theorem relation_of_mem_transposed {con : Constraint α}
    (hcon : con ∈ (p.transposed rows bounds).constraints) :
    con.relation = (p.transposed rows bounds).sense.canonicalRelation := by
  obtain ⟨j, _, rfl⟩ := List.mem_mapIdx.mp hcon
  rfl

theorem coefficients_transposed : (p.transposed rows bounds).constraints.map (·.coefficients)
    = (List.range p.numVariables).map (column rows) := by
  refine List.ext_getElem ?_ fun j _ _ ↦ ?_
  · rw [List.length_map, List.length_map, List.length_range]
    exact p.numConstraints_transposed rows bounds
  · simp only [transposed, List.getElem_map, List.getElem_mapIdx, List.getElem_range]

theorem rhs_transposed : (p.transposed rows bounds).constraints.map (·.rhs) = p.objective := by
  refine List.ext_getElem ?_ fun j _ _ ↦ ?_
  · rw [List.length_map]
    exact p.numConstraints_transposed rows bounds
  · simp only [transposed, List.getElem_map, List.getElem_mapIdx]

theorem constraintName_transposed {j : ℕ} (hj : j < p.numVariables) :
    (p.transposed rows bounds).constraintName j = p.variableName j := by
  have hcost : p.objective[j]? = some p.objective[j] := List.getElem?_eq_getElem hj
  rw [constraintName, transposed, List.getElem?_mapIdx, hcost]
  rfl

theorem variableName_transposed {i : ℕ} (hi : i < p.numConstraints) :
    (p.transposed rows bounds).variableName i = s!"Y_{p.constraintName i}" := by
  rw [variableName, transposed, List.getElem?_map, List.getElem?_range hi]
  rfl

/-! ## The dual -/

variable {p rows bounds}

/-- **A transposed problem is well formed**, the limits on rows and on columns being equal. -/
theorem WellFormed.transposed (hp : p.WellFormed) (hpos : p.constraints ≠ [])
    (hrows : rows.length = p.numConstraints) (hbounds : bounds.length = p.numConstraints)
    (hlen : ∀ row ∈ rows, row.length = p.numVariables)
    (hfinite : ∀ row ∈ rows, ∀ x ∈ row, isFinite x = true)
    (hfinite' : ∀ x ∈ bounds, isFinite x = true) : (p.transposed rows bounds).WellFormed := by
  obtain ⟨_, hvariables, hconstraints, _, hcosts, _⟩ := wellFormed_iff.mp hp
  have hlimit : maxVariables = maxConstraints := rfl
  have hnum : (p.transposed rows bounds).numVariables = p.numConstraints := hbounds
  have hnum' : (p.transposed rows bounds).numConstraints = p.numVariables :=
    p.numConstraints_transposed rows bounds
  refine wellFormed_iff.mpr ⟨?_, ?_, ?_, .inr ?_, hfinite', fun con hcon ↦ ?_⟩
  · rw [hnum]
    exact List.length_pos_of_ne_nil hpos
  · omega
  · omega
  · rw [hnum]
    exact (List.length_map ..).trans List.length_range
  · obtain ⟨j, hj, rfl⟩ := List.mem_mapIdx.mp hcon
    refine ⟨?_, hcosts _ (List.getElem_mem hj), fun x hx ↦ ?_⟩
    · rw [hnum, ← hrows]
      exact List.length_map ..
    · obtain ⟨row, hrow, rfl⟩ := List.mem_map.mp hx
      have hlt : j < row.length := (hlen row hrow).symm ▸ hj
      rw [List.getElem?_eq_getElem hlt]
      exact hfinite row hrow _ (List.getElem_mem hlt)

/-- **Without equalities there is a dual**, made of the oriented rows. -/
theorem dual_eq_transposed (hp : p.WellFormed) (h : ∀ con ∈ p.constraints, con.relation ≠ .eq) :
    p.dual = .ok (p.transposed
      (p.constraints.map fun con ↦ (con.oriented p.sense.canonicalRelation).1)
      (p.constraints.map fun con ↦ (con.oriented p.sense.canonicalRelation).2)) := by
  have hnone : p.constraints.findIdx? (·.relation = .eq) = none := by
    rw [List.findIdx?_eq_none_iff]
    intro con hcon
    exact decide_eq_false (h con hcon)
  rw [dual, show p.validate = .ok () from hp]
  simp only [hnone, List.map_map]
  rfl

theorem wellFormed_of_dual {d : Problem α} (h : p.dual = .ok d) :
    p.WellFormed ∧ ∀ con ∈ p.constraints, con.relation ≠ .eq := by
  rw [dual] at h
  cases hvalid : p.validate with
  | error fault => simp only [hvalid, reduceCtorEq] at h
  | ok =>
    refine ⟨hvalid, ?_⟩
    cases hfind : p.constraints.findIdx? (·.relation = .eq) with
    | some i => simp only [hvalid, hfind, reduceCtorEq] at h
    | none =>
      rw [List.findIdx?_eq_none_iff] at hfind
      exact fun con hcon ↦ of_decide_eq_false (hfind con hcon)

/-- The table of the problem in its canonical direction, transposed. -/
def canonicalDual (p : Problem α) : Problem α :=
  p.transposed (p.constraints.map fun con ↦ (con.canonical p.sense).coefficients)
    (p.constraints.map fun con ↦ (con.canonical p.sense).rhs)

theorem numConstraints_canonicalDual (p : Problem α) :
    p.canonicalDual.numConstraints = p.numVariables := p.numConstraints_transposed _ _

theorem relation_of_mem_canonicalDual {con : Constraint α}
    (hcon : con ∈ p.canonicalDual.constraints) :
    con.relation = p.canonicalDual.sense.canonicalRelation :=
  p.relation_of_mem_transposed _ _ hcon

theorem canonicalDual_of_canonical
    (h : ∀ con ∈ p.constraints, con.relation = p.sense.canonicalRelation) : p.canonicalDual
      = p.transposed (p.constraints.map (·.coefficients)) (p.constraints.map (·.rhs)) := by
  have hsame : ∀ con ∈ p.constraints, con.canonical p.sense = con := fun con hcon ↦
    Constraint.canonical_of_relation_eq (h con hcon)
  rw [canonicalDual,
    List.map_congr_left fun con hcon ↦ congrArg Constraint.coefficients (hsame con hcon),
    List.map_congr_left fun con hcon ↦ congrArg Constraint.rhs (hsame con hcon)]

theorem dual_eq_canonicalDual [LawfulSign α] (hp : p.WellFormed)
    (h : ∀ con ∈ p.constraints, con.relation ≠ .eq) : p.dual = .ok p.canonicalDual := by
  rw [dual_eq_transposed hp h]
  simp only [Constraint.oriented_eq_canonical, canonicalDual]

theorem WellFormed.canonical_row [LawfulNeg α] (hp : p.WellFormed) {con : Constraint α}
    (hcon : con ∈ p.constraints) :
    (con.canonical p.sense).coefficients.length = p.numVariables
    ∧ isFinite (con.canonical p.sense).rhs = true
    ∧ ∀ x ∈ (con.canonical p.sense).coefficients, isFinite x = true := by
  have hvalid : con.validate p.numVariables 0 = .ok () :=
    Constraint.validate_eq_ok_iff.mpr ((wellFormed_iff.mp hp).2.2.2.2.2 con hcon)
  rw [← Constraint.validate_eq_ok_iff (i := 0)]
  exact Constraint.canonical_cases (P := fun con ↦ con.validate p.numVariables 0 = .ok ()) hvalid
    ((con.validate_negated ..).trans hvalid)

theorem WellFormed.canonicalDual [LawfulNeg α] (hp : p.WellFormed) (hpos : p.constraints ≠ []) :
    p.canonicalDual.WellFormed := by
  refine hp.transposed hpos (List.length_map ..) (List.length_map ..) ?_ ?_ ?_
  · exact List.forall_mem_map.mpr fun con hcon ↦ (hp.canonical_row hcon).1
  · exact List.forall_mem_map.mpr fun con hcon ↦ (hp.canonical_row hcon).2.2
  · exact List.forall_mem_map.mpr fun con hcon ↦ (hp.canonical_row hcon).2.1

theorem numVariables_of_dual {d : Problem α} (h : p.dual = .ok d) :
    d.numVariables = p.numConstraints := by
  obtain ⟨hp, hne⟩ := wellFormed_of_dual h
  obtain rfl := Except.ok.inj ((dual_eq_transposed hp hne).symm.trans h)
  exact List.length_map ..

/-- **The dual is well formed where the problem has constraints.** Without any it has no variables,
and that is the first thing that is looked at. -/
theorem validate_of_dual [LawfulSign α] {d : Problem α} (h : p.dual = .ok d) :
    d.validate = if p.numConstraints = 0 then .error .noVariables else .ok () := by
  split_ifs with hzero
  · rw [validate, numVariables_of_dual h, if_pos hzero]
  · obtain ⟨hp, hne⟩ := wellFormed_of_dual h
    obtain rfl := Except.ok.inj ((dual_eq_canonicalDual hp hne).symm.trans h)
    exact hp.canonicalDual (List.ne_nil_of_length_pos (Nat.pos_of_ne_zero hzero))

/-! ## Twice the dual -/

/-- The problem with its rows in the canonical direction, under the names that two duals make. -/
def canonical (p : Problem α) : Problem α where
  sense := p.sense
  objective := p.objective
  constraints := p.constraints.mapIdx fun i con ↦
    { con.canonical p.sense with name := some s!"Y_{p.constraintName i}" }
  variableNames := (List.range p.numVariables).map fun j ↦ s!"Y_{p.variableName j}"

section

variable [LawfulNeg α]

theorem column_canonicalDual (hp : p.WellFormed) {i : ℕ} (hi : i < p.constraints.length) :
    column (p.canonicalDual.constraints.map (·.coefficients)) i
      = (p.constraints[i].canonical p.sense).coefficients := by
  rw [canonicalDual, coefficients_transposed]
  exact column_map_column (by rw [List.getElem?_map, List.getElem?_eq_getElem hi]; rfl)
    (hp.canonical_row (List.getElem_mem hi)).1

theorem constraints_transposed_canonicalDual (hp : p.WellFormed)
    (h : ∀ con ∈ p.constraints, con.relation ≠ .eq) :
    (p.canonicalDual.transposed (p.canonicalDual.constraints.map (·.coefficients))
      p.objective).constraints = p.canonical.constraints := by
  refine List.ext_getElem ?_ fun i _ hi ↦ ?_
  · rw [transposed, canonical, List.length_mapIdx, List.length_mapIdx]
    exact List.length_map ..
  · have hi : i < p.constraints.length := by rwa [canonical, List.length_mapIdx] at hi
    have hrelation : p.canonicalDual.sense.opposite.canonicalRelation
        = (p.constraints[i].canonical p.sense).relation := by
      rw [Constraint.relation_canonical (h _ (List.getElem_mem hi))]
      exact congrArg Sense.canonicalRelation p.sense.opposite_opposite
    have hname : p.canonicalDual.variableName i = s!"Y_{p.constraintName i}" :=
      p.variableName_transposed _ _ hi
    have hrhs : p.canonicalDual.objective
        = p.constraints.map fun con ↦ (con.canonical p.sense).rhs := rfl
    simp only [transposed, canonical, List.getElem_mapIdx, column_canonicalDual hp hi, hrelation,
      hname, hrhs, List.getElem_map]

/-- **The table transposed twice is the table.** -/
theorem canonicalDual_canonicalDual (hp : p.WellFormed)
    (h : ∀ con ∈ p.constraints, con.relation ≠ .eq) :
    p.canonicalDual.canonicalDual = p.canonical := by
  have hrhs : p.canonicalDual.constraints.map (·.rhs) = p.objective := p.rhs_transposed _ _
  have hnames : (List.range p.canonicalDual.numConstraints).map
        (fun j ↦ s!"Y_{p.canonicalDual.constraintName j}") = p.canonical.variableNames := by
    rw [numConstraints_canonicalDual]
    refine List.map_congr_left fun j hj ↦ ?_
    rw [canonicalDual, constraintName_transposed _ _ _ (List.mem_range.mp hj)]
  rw [canonicalDual_of_canonical fun con ↦ relation_of_mem_canonicalDual, hrhs]
  exact (Problem.mk.injEq ..).mpr ⟨p.sense.opposite_opposite, rfl,
    constraints_transposed_canonicalDual hp h, hnames⟩

end

/-- **The dual of the dual is the problem**, with its rows in the canonical direction. -/
theorem dual_dual [LawfulSign α] (hp : p.WellFormed) (hpos : p.constraints ≠ [])
    (h : ∀ con ∈ p.constraints, con.relation ≠ .eq) :
    ∃ d, p.dual = .ok d ∧ d.dual = .ok p.canonical := by
  have hdirected : ∀ con ∈ p.canonicalDual.constraints, con.relation ≠ .eq := fun con hcon ↦
    relation_of_mem_canonicalDual hcon ▸ Sense.canonicalRelation_ne_eq _
  refine ⟨p.canonicalDual, dual_eq_canonicalDual hp h, ?_⟩
  rw [dual_eq_canonicalDual (hp.canonicalDual hpos) hdirected, canonicalDual_canonicalDual hp h]

end Problem

/-- Three capacities for two products, one of them written as a lower bound. -/
def workshop : Problem Float where
  sense := .maximize
  objective := [3, 5]
  constraints := [⟨none, [1, 0], .le, 4⟩, ⟨some "press", [-3, -2], .ge, -18⟩,
    ⟨none, [0, 2], .le, 12⟩]
  variableNames := ["bolts", "nuts"]

/-- Only the row that was written the other way comes back differently. -/
theorem dual_dual_workshop : workshop.WellFormed ∧ workshop.constraints ≠ []
    ∧ (∀ con ∈ workshop.constraints, con.relation ≠ .eq)
    ∧ ∃ d, workshop.dual = .ok d ∧ d.numVariables = 3 ∧ d.numConstraints = 2
      ∧ d.dual = .ok {
        sense := .maximize
        objective := [3, 5]
        constraints := [⟨some "Y_C1", [1, 0], .le, 4⟩, ⟨some "Y_press", [3, 2], .le, 18⟩,
          ⟨some "Y_C3", [0, 2], .le, 12⟩]
        variableNames := ["Y_bolts", "Y_nuts"] } := by
  have hp : workshop.WellFormed := by rfl
  have hpos : workshop.constraints ≠ [] := nofun
  have hne : ∀ con ∈ workshop.constraints, con.relation ≠ .eq := by decide +kernel
  obtain ⟨d, hd, hdual⟩ := Problem.dual_dual hp hpos hne
  have hsize : workshop.dual.toOption.map (fun d ↦ (d.numVariables, d.numConstraints))
      = some (3, 2) := by decide +kernel
  rw [hd] at hsize
  obtain ⟨hvariables, hconstraints⟩ := Prod.mk.inj (Option.some_inj.mp hsize)
  exact ⟨hp, hpos, hne, d, hd, hvariables, hconstraints, hdual.trans (by rfl)⟩

end LinearProgramming
