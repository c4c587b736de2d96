import LinearProgramming.Proofs.Problem.Signs

/-!
# Standard forms that differ in signs

A standard form keeps two notes on how its problem was written: which rows were negated, and in
which sense the costs were meant. Without these notes the form is the same for problems that differ
in signs. Costs negated twice are the costs. Of a constraint and its negation one is turned and one
is not, so both come to the same row, with the notes exchanged.

A right-hand side of zero is never turned. So a constraint with zero on the right and its negation
are two different rows, with a slack in one and a surplus in the other.
-/

namespace LinearProgramming

open Scalar

theorem filterMap_zipIdx_map {β γ : Type} {f : β → β} {g : β × ℕ → Option γ}
    (h : ∀ b i, g (f b, i) = g (b, i)) (l : List β) :
    (l.map f).zipIdx.filterMap g = l.zipIdx.filterMap g := by
  rw [List.zipIdx_map, List.filterMap_map]
  exact List.filterMap_congr fun a _ ↦ h a.1 a.2

variable {α : Type}

def NormalRow.unsigned (row : NormalRow α) : NormalRow α := { row with negated := false }

def StandardRow.unsigned (row : StandardRow α) : StandardRow α := { row with negated := false }

namespace StandardForm

/-- The form without the notes on what was negated. -/
def unsigned (form : StandardForm α) : StandardForm α :=
  { form with sense := .maximize, rows := form.rows.map (·.unsigned) }

/-- Whether the price of a row is reported with its sign turned: one note turns it, two do not. -/
def turnsPrice (form : StandardForm α) (row : StandardRow α) : Bool :=
  row.negated ^^ form.signFlipped

end StandardForm

variable [Scalar α]

/-! ## A constraint and its negation -/

/-- **One of a constraint and its negation is turned**, and they come to the same row. -/
theorem Constraint.normalize_negated [LawfulSign α] {con : Constraint α}
    (hfinite : isFinite con.rhs = true) (hne : ¬con.rhs == 0) :
    con.negated.normalize = { con.normalize with negated := !con.normalize.negated } := by
  have hturned : con.negated.rhs < 0 ↔ ¬con.rhs < 0 := LawfulSign.neg_lt_zero_iff hfinite hne
  rw [normalize, normalize]
  by_cases hneg : con.rhs < 0
  · rw [if_pos hneg, if_neg fun h ↦ hturned.mp h hneg]
    rfl
  · rw [if_neg hneg, if_pos (hturned.mpr hneg)]
    simp only [negated, map_neg_neg, Relation.flipped_flipped, LawfulNeg.neg_neg, Bool.not_false]

/-! ## Forms without notes -/

namespace NormalRow

theorem placeAll_map_unsigned (start extra auxiliary artificial : ℕ) (rows : List (NormalRow α)) :
    placeAll start extra auxiliary artificial (rows.map (·.unsigned))
      = (placeAll start extra auxiliary artificial rows).map (·.unsigned) := by
  induction rows generalizing auxiliary artificial with
  | nil => rfl
  | cons row rows ih =>
    rw [List.map_cons, placeAll, ih, placeAll, List.map_cons]
    rfl

omit [Scalar α] in
private theorem countP_unsigned (q : Relation → Bool) (rows : List (NormalRow α)) :
    (rows.map (·.unsigned)).countP (q ·.relation) = rows.countP (q ·.relation) :=
  List.countP_map ..

end NormalRow

namespace StandardForm

omit [Scalar α] in
theorem unsigned_of_getElem?_rows {form form' : StandardForm α} (h : form'.unsigned = form.unsigned)
    {k : ℕ} {row row' : StandardRow α} (hrow : form.rows[k]? = some row)
    (hrow' : form'.rows[k]? = some row') : row'.unsigned = row.unsigned := by
  have hrows : form'.rows.map (·.unsigned) = form.rows.map (·.unsigned) :=
    congrArg StandardForm.rows h
  have hk := congrArg (·[k]?) hrows
  simpa only [List.getElem?_map, hrow, hrow', Option.map_some, Option.some_inj] using hk

variable {p q : Problem α}

theorem unsigned_ofWellFormed_congr (hnum : q.numVariables = p.numVariables)
    (hcosts : (ofWellFormed q).objective = (ofWellFormed p).objective)
    (hrows : q.normalRows.map (·.unsigned) = p.normalRows.map (·.unsigned)) :
    (ofWellFormed q).unsigned = (ofWellFormed p).unsigned := by
  have hcount (r : Relation → Bool) :
      q.normalRows.countP (r ·.relation) = p.normalRows.countP (r ·.relation) := by
    rw [← NormalRow.countP_unsigned, hrows, NormalRow.countP_unsigned]
  have hblock {f : NormalRow α × ℕ → Option Column}
      (hf : ∀ row i, f (row.unsigned, i) = f (row, i)) :
      q.normalRows.zipIdx.filterMap f = p.normalRows.zipIdx.filterMap f := by
    rw [← filterMap_zipIdx_map hf, hrows, filterMap_zipIdx_map hf]
  have haux : q.numAuxiliary = p.numAuxiliary := hcount Relation.hasAuxiliary
  have hart : q.numArtificial = p.numArtificial := hcount Relation.hasArtificial
  have hplaced : (ofWellFormed q).rows.map (·.unsigned)
      = (ofWellFormed p).rows.map (·.unsigned) := by
    have hplace (p : Problem α) : (ofWellFormed p).rows.map (·.unsigned)
        = NormalRow.placeAll p.numVariables (p.numAuxiliary + p.numArtificial) p.numVariables
          (p.numVariables + p.numAuxiliary) (p.normalRows.map (·.unsigned)) :=
      (NormalRow.placeAll_map_unsigned ..).symm
    rw [hplace, hplace, hnum, haux, hart, hrows]
  have hcolumns : (ofWellFormed q).columns = (ofWellFormed p).columns := by
    rw [columns_ofWellFormed, columns_ofWellFormed, hnum, hblock fun _ _ ↦ rfl,
      hblock fun _ _ ↦ rfl]
  rw [unsigned, unsigned, hplaced, hcosts, hcolumns]
  congr 1

theorem negated_of_getElem?_rows {k : ℕ} {row : StandardRow α} {con : Constraint α}
    (hrow : (ofWellFormed p).rows[k]? = some row) (hcon : p.constraints[k]? = some con) :
    row.negated = con.normalize.negated := by
  rw [getElem?_rows_ofWellFormed, Problem.getElem?_normalRows hcon, Option.map_some,
    Option.some_inj] at hrow
  rw [← hrow]
  rfl

/-! ## The objective negated -/

section Mirrored

variable (p)

theorem signFlipped_mirrored :
    (ofWellFormed p.mirrored).signFlipped = !(ofWellFormed p).signFlipped := by
  rw [signFlipped, signFlipped, ofWellFormed, ofWellFormed, Problem.mirrored]
  cases p.sense <;> rfl

theorem turnsPrice_mirrored (row : StandardRow α) :
    (ofWellFormed p.mirrored).turnsPrice row = !(ofWellFormed p).turnsPrice row := by
  rw [turnsPrice, turnsPrice, signFlipped_mirrored, Bool.xor_not]

theorem rows_mirrored : (ofWellFormed p.mirrored).rows = (ofWellFormed p).rows := by
  rw [ofWellFormed, ofWellFormed, p.numVariables_mirrored]
  rfl

/-- **Costs negated twice are the costs.** -/
theorem unsigned_mirrored [LawfulNeg α] :
    (ofWellFormed p.mirrored).unsigned = (ofWellFormed p).unsigned := by
  refine unsigned_ofWellFormed_congr p.numVariables_mirrored ?_ rfl
  rw [ofWellFormed, ofWellFormed, Problem.mirrored]
  cases p.sense with
  | maximize => exact map_neg_neg p.objective
  | minimize => rfl

end Mirrored

/-! ## One constraint negated -/

section NegateConstraint

variable [LawfulSign α] {i : ℕ} {con : Constraint α}

/-- **A constraint that is not zero on the right comes to the same row** as its negation. -/
theorem unsigned_negateConstraint (hcon : p.constraints[i]? = some con)
    (hfinite : isFinite con.rhs = true) (hne : ¬con.rhs == 0) :
    (ofWellFormed (p.negateConstraint i)).unsigned = (ofWellFormed p).unsigned := by
  refine unsigned_ofWellFormed_congr rfl rfl ?_
  rw [Problem.normalRows, Problem.normalRows, List.map_map, List.map_map]
  refine map_modify fun con' hcon' ↦ ?_
  obtain rfl : con = con' := Option.some_inj.mp (hcon.symm.trans hcon')
  rw [Function.comp_apply, Function.comp_apply, Constraint.normalize_negated hfinite hne]
  rfl

omit [LawfulSign α] in
theorem signFlipped_negateConstraint (p : Problem α) (i : ℕ) :
    (ofWellFormed (p.negateConstraint i)).signFlipped = (ofWellFormed p).signFlipped := rfl

theorem negated_negateConstraint (hcon : p.constraints[i]? = some con)
    (hfinite : isFinite con.rhs = true) (hne : ¬con.rhs == 0) {k : ℕ} {row row' : StandardRow α}
    (hrow : (ofWellFormed p).rows[k]? = some row)
    (hrow' : (ofWellFormed (p.negateConstraint i)).rows[k]? = some row') :
    row'.negated = (row.negated ^^ decide (k = i)) := by
  obtain ⟨_, hnormal, -⟩ := exists_of_getElem?_rows hrow
  obtain ⟨con', hcon', -⟩ := Problem.exists_of_getElem?_normalRows hnormal
  have hrewritten := p.getElem?_constraints_negateConstraint i k
  rw [hcon', Option.map_some] at hrewritten
  rw [negated_of_getElem?_rows hrow' hrewritten, negated_of_getElem?_rows hrow hcon']
  by_cases hki : k = i
  · subst hki
    obtain rfl : con = con' := Option.some_inj.mp (hcon.symm.trans hcon')
    rw [if_pos rfl, Constraint.normalize_negated hfinite hne, decide_eq_true rfl, Bool.xor_true]
  · rw [if_neg (Ne.symm hki), decide_eq_false hki, Bool.xor_false]

theorem turnsPrice_negateConstraint (hcon : p.constraints[i]? = some con)
    (hfinite : isFinite con.rhs = true) (hne : ¬con.rhs == 0) {k : ℕ} {row row' : StandardRow α}
    (hrow : (ofWellFormed p).rows[k]? = some row)
    (hrow' : (ofWellFormed (p.negateConstraint i)).rows[k]? = some row') :
    (ofWellFormed (p.negateConstraint i)).turnsPrice row'
      = ((ofWellFormed p).turnsPrice row ^^ decide (k = i)) := by
  rw [turnsPrice, turnsPrice, signFlipped_negateConstraint,
    negated_negateConstraint hcon hfinite hne hrow hrow', Bool.xor_right_comm]

end NegateConstraint

end StandardForm

end LinearProgramming
