import LinearProgramming.Proofs.Checked.Engine
import LinearProgramming.Solution.ReadOff

/-!
# Checked reading off

The solution read off a sheet. A value is written where its variable is, which only the structural
ones have a place for. Prices are read from the columns that the rows of the standard form call
their own, and reduced costs from those of the variables, and each of these is a column.
-/

namespace LinearProgramming

open Checked

variable {α : Type} [Scalar α]

namespace Sheet

variable (form : StandardForm α) (ε : α) (s : Sheet α)

def structuralValues : Option (List α) :=
  (List.range s.numRows).foldlM (fun values i ↦ do
    let basic ← s.basis[i]?
    if basic < form.numStructural then setAt values basic (Scalar.snap ε (← s.constant i))
    else some values) (List.replicate form.numStructural 0)

def rowPrice (obj : List α) (row : StandardRow α) : Option α :=
  match row.relation, row.auxiliary, row.artificial with
  | .le, some slack, _ => obj[slack]?
  | .ge, some surplus, _ => do return -(← obj[surplus]?)
  | _, _, some artificial => obj[artificial]?
  | _, _, none => some 0

def shadowPrice (row : StandardRow α) : Option α := do
  let price ← rowPrice (← s.objective) row
  let price := if row.negated then -price else price
  return Scalar.snap ε (if form.signFlipped then -price else price)

def isBinding (row : StandardRow α) : Option Bool :=
  match row.auxiliary with
  | none => some true
  | some column =>
    match s.basis.findIdx? (· == column) with
    | none => some true
    | some i => do return Scalar.abs (← s.constant i) ≤ ε

def reducedCost (j : ℕ) : Option α := do
  if s.basis.contains j then return 0
  else return Scalar.snap ε (← (← s.objective)[j]?)

def shadowPrices (p : Problem α) : Option (List (ShadowPrice α)) :=
  form.rows.zipIdx.mapM fun (row, i) ↦ do
    return { constraint := p.constraintName i, value := ← s.shadowPrice form ε row }

def reducedCosts (p : Problem α) (values : List α) : Option (List (ReducedCost α)) :=
  (List.range form.numStructural).mapM fun j ↦ do
    return {
      variableName := p.variableName j
      value := ← values[j]?
      cost := ← s.reducedCost ε j
      isBasic := s.basis.contains j }

def bindingConstraints (p : Problem α) : Option (List String) := do
  let names ← form.rows.zipIdx.mapM fun (row, i) ↦ do
    return if ← s.isBinding ε row then some (p.constraintName i) else none
  return names.filterMap id

/-- What a sheet says about the constraints and the variables of a problem. -/
def analysis (p : Problem α) (values : List α) : Option (Analysis α) := do
  return {
    shadowPrices := ← s.shadowPrices form ε p
    reducedCosts := ← s.reducedCosts form ε p values
    bindingConstraints := ← s.bindingConstraints form ε p }

def toSolution (p : Problem α) (iterations : ℕ) : Option (Solution α) := do
  let values ← s.structuralValues form ε
  let objective ← s.objectiveValue
  return {
    status := .optimal
    values := some values
    objectiveValue := some (if form.signFlipped then -objective else objective)
    iterations := iterations
    analysis := some (← s.analysis form ε p values)
    trace := none }

end Sheet

theorem StandardForm.own_lt_numColumns {p : Problem α} {row : StandardRow α}
    (h : row ∈ (ofWellFormed p).rows) : (∀ c ∈ row.auxiliary, c < (ofWellFormed p).numColumns)
      ∧ ∀ c ∈ row.artificial, c < (ofWellFormed p).numColumns := by
  obtain ⟨i, hi⟩ := List.mem_iff_getElem?.mp h
  obtain ⟨normal, hnormal, rfl⟩ := exists_of_getElem?_rows hi
  simp only [NormalRow.place, Option.mem_def, Option.ite_none_right_eq_some, Option.some.injEq]
  refine ⟨fun c hc ↦ ?_, fun c hc ↦ ?_⟩
  · exact hc.2 ▸ auxiliaryOf_lt_numColumns hnormal hc.1
  · exact hc.2 ▸ artificialOf_lt_numColumns hnormal hc.1

namespace Tableau

variable {t : Tableau α} {n j : ℕ} {form : StandardForm α} {ε : α} {p : Problem α}
  {row : StandardRow α}

theorem structuralValues_sheet (h : t.Shaped n) (form : StandardForm α) (ε : α) :
    ∃ values, values.length = form.numStructural
      ∧ t.structuralValues form ε = values ∧ t.sheet.structuralValues form ε = some values := by
  obtain ⟨values, hloop, rfl, hlen⟩ := foldlM_range t.rows
    (fun values i ↦ do
      let basic ← t.basis[i]?
      if basic < form.numStructural then
        setAt values basic (Scalar.snap ε (← t.sheet.constant i))
      else some values)
    (f := fun values row ↦ values.set row.basic (Scalar.snap ε (t.constantOf row.cells)))
    (R := fun values values' ↦ values = values' ∧ values.length = form.numStructural)
    (fun {i a values _} ha hvalues ↦ by
      obtain ⟨rfl, hlen⟩ := hvalues
      refine ⟨_, ?_, rfl, by rwa [List.length_set]⟩
      rw [getElem?_basis ha, constant_sheet h ha]
      simp only [Option.bind_eq_bind, Option.bind_some]
      split_ifs with hbasic
      · exact setAt_of_lt (hlen ▸ hbasic) _
      · rw [List.set_eq_of_length_le (hlen ▸ not_lt.mp hbasic)])
    (b := List.replicate form.numStructural 0) ⟨rfl, List.length_replicate⟩
  refine ⟨_, hlen, rfl, ?_⟩
  rw [Sheet.structuralValues, numRows_sheet]
  exact hloop

theorem rowPrice_sheet (haux : ∀ c ∈ row.auxiliary, c < t.objective.length)
    (hart : ∀ c ∈ row.artificial, c < t.objective.length) :
    Sheet.rowPrice t.objective row = some (t.rowPrice row) := by
  have hread : ∀ c, row.auxiliary = some c → t.objective[c]? = some (cellAt t.objective c) :=
    fun c hc ↦ getElem?_eq_cellAt (haux c hc)
  have hread' : ∀ c, row.artificial = some c → t.objective[c]? = some (cellAt t.objective c) :=
    fun c hc ↦ getElem?_eq_cellAt (hart c hc)
  cases hrel : row.relation <;> cases hauxiliary : row.auxiliary <;>
    cases hartificial : row.artificial <;>
    simp [Sheet.rowPrice, rowPrice, hrel, hauxiliary, hartificial, hread, hread']

variable (h : t.Shaped (StandardForm.ofWellFormed p).numColumns)

include h in
theorem shadowPrice_sheet (hrow : row ∈ (StandardForm.ofWellFormed p).rows) :
    t.sheet.shadowPrice (.ofWellFormed p) ε row
      = some (t.shadowPrice (.ofWellFormed p) ε row) := by
  obtain ⟨haux, hart⟩ := StandardForm.own_lt_numColumns hrow
  have hlen := h.length_objective
  rw [Sheet.shadowPrice, objective_sheet]
  simp only [Option.bind_eq_bind, Option.bind_some]
  rw [rowPrice_sheet (fun c hc ↦ by have := haux c hc; omega)
    fun c hc ↦ by have := hart c hc; omega]
  rfl

include h in
theorem isBinding_sheet : t.sheet.isBinding ε row = some (t.isBinding ε row) := by
  rw [Sheet.isBinding, isBinding]
  cases row.auxiliary with
  | none => rfl
  | some column =>
    have hfind : t.sheet.basis.findIdx? (· == column) = t.rows.findIdx? (·.basic == column) :=
      List.findIdx?_map
    simp only [hfind, List.find?_eq_bind_findIdx?_getElem?]
    cases hi : t.rows.findIdx? (·.basic == column) with
    | none => rfl
    | some i =>
      obtain ⟨hlt, -⟩ := List.findIdx?_eq_some_iff_getElem.mp hi
      have ha : t.rows[i]? = some t.rows[i] := List.getElem?_eq_getElem hlt
      simp only [constant_sheet h ha, ha, Option.bind_eq_bind, Option.bind_some]
      rfl

include h in
theorem reducedCost_sheet (hj : j < p.numVariables) :
    t.sheet.reducedCost ε j = some (t.reducedCost ε j) := by
  have hle := StandardForm.numVariables_le_numColumns p
  have hlen := h.length_objective
  rw [Sheet.reducedCost, reducedCost, basis_sheet, objective_sheet]
  split_ifs
  · rfl
  · simp only [Option.bind_eq_bind, Option.bind_some, getElem?_eq_cellAt
      (show j < t.objective.length by omega)]
    rfl

include h in
theorem shadowPrices_sheet : t.sheet.shadowPrices (.ofWellFormed p) ε p
    = some (t.analysis p (.ofWellFormed p) ε).shadowPrices := by
  rw [Sheet.shadowPrices, analysis, List.mapIdx_eq_zipIdx_map]
  refine mapM_eq fun (row, i) hmem ↦ ?_
  simp only [shadowPrice_sheet h (List.fst_mem_of_mem_zipIdx hmem), Option.bind_eq_bind,
    Option.bind_some]
  rfl

include h in
theorem reducedCosts_sheet {values : List α}
    (hvalues : t.structuralValues (.ofWellFormed p) ε = values)
    (hlen : values.length = p.numVariables) :
    t.sheet.reducedCosts (.ofWellFormed p) ε p values
      = some (t.analysis p (.ofWellFormed p) ε).reducedCosts := by
  rw [Sheet.reducedCosts, analysis, hvalues, StandardForm.numStructural_ofWellFormed, ← hlen]
  refine mapM_range fun {j value} hj ↦ ?_
  have hlt : j < p.numVariables := hlen ▸ (List.getElem?_eq_some_iff.mp hj).1
  simp only [hj, reducedCost_sheet h hlt, Option.bind_eq_bind, Option.bind_some]
  rfl

include h in
theorem bindingConstraints_sheet : t.sheet.bindingConstraints (.ofWellFormed p) ε p
    = some (t.analysis p (.ofWellFormed p) ε).bindingConstraints := by
  have hnames : (StandardForm.ofWellFormed p).rows.zipIdx.mapM (fun (row, i) ↦ do
        return if ← t.sheet.isBinding ε row then some (p.constraintName i) else none)
      = some ((StandardForm.ofWellFormed p).rows.zipIdx.map fun (row, i) ↦
          if t.isBinding ε row then some (p.constraintName i) else none) := by
    refine mapM_eq fun (row, i) _ ↦ ?_
    simp only [isBinding_sheet h, Option.bind_eq_bind, Option.bind_some]
    rfl
  rw [Sheet.bindingConstraints, hnames]
  simp only [Option.bind_eq_bind, Option.bind_some, analysis, List.filterMap_map]
  rfl

include h in
/-- **The solution** is read off without looking past an end. -/
theorem toSolution_sheet (iterations : ℕ) :
    t.sheet.toSolution (.ofWellFormed p) ε p iterations
      = some (t.toSolution p (.ofWellFormed p) ε iterations) := by
  obtain ⟨values, hlen, hvalues, hsheet⟩ := structuralValues_sheet h (.ofWellFormed p) ε
  rw [Sheet.toSolution, hsheet, objectiveValue_sheet h]
  simp only [Sheet.analysis, shadowPrices_sheet h, reducedCosts_sheet h hvalues hlen,
    bindingConstraints_sheet h, Option.bind_eq_bind, Option.bind_some, toSolution, hvalues]
  rfl

end Tableau

end LinearProgramming
