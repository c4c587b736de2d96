import LinearProgramming.Json.Encode
import LinearProgramming.Proofs.Decimal.Text
import LinearProgramming.Proofs.Solve.Limit
import Mathlib.Data.List.Basic

/-!
# The numbers in a JSON value

Which floating-point numbers a JSON value holds, in the order in which they are written. Counts are
not among them. Each is written with digits if it is finite and as `null` otherwise, so a reader who
finds `null` where a number should be has met one that is not.
-/

namespace LinearProgramming

namespace Json

mutual

def numbers : Json → List Float
  | number x => [x]
  | array items => numbersOfItems items
  | object fields => numbersOfFields fields
  | null | bool _ | count _ | string _ => []

def numbersOfItems : List Json → List Float
  | [] => []
  | item :: rest => numbers item ++ numbersOfItems rest

def numbersOfFields : List (String × Json) → List Float
  | [] => []
  | field :: rest => numbersOfField field ++ numbersOfFields rest

def numbersOfField : String × Json → List Float
  | (_, value) => numbers value

end

theorem numbers_list {β : Type} (item : β → Json) (xs : List β) :
    (list item xs).numbers = xs.flatMap fun x ↦ (item x).numbers := by
  rw [list, numbers]
  induction xs with
  | nil => rfl
  | cons x xs ih => rw [List.map_cons, numbersOfItems, ih, List.flatMap_cons]

theorem numbers_optional {β : Type} (item : β → Json) (x : Option β) :
    (optional item x).numbers = x.elim [] fun x ↦ (item x).numbers := by
  cases x <;> rfl

theorem numbers_list_number (xs : List Float) : (list number xs).numbers = xs := by
  rw [numbers_list]
  simp [numbers]

end Json

/-! ## Problems -/

theorem Constraint.numbers_toJson (c : Constraint Float) :
    c.toJson.numbers = c.coefficients ++ [c.rhs] := by
  obtain ⟨name, coefficients, relation, rhs⟩ := c
  cases name <;> simp [toJson, Json.numbers, Json.numbersOfFields, Json.numbersOfField,
    Json.numbers_list_number]

theorem Problem.numbers_toJson (p : Problem Float) :
    p.toJson.numbers = p.objective ++ p.constraints.flatMap fun c ↦ c.coefficients ++ [c.rhs] := by
  rw [toJson]
  split_ifs <;> simp [Json.numbers, Json.numbersOfFields, Json.numbersOfField, Json.numbers_list,
    Constraint.numbers_toJson]

/-! ## Solutions -/

section

variable {α : Type}

/-- The prices that an analysis reports, and the values next to the reduced costs. -/
def Analysis.numbers (a : Analysis α) : List α :=
  a.shadowPrices.map (·.value) ++ a.reducedCosts.flatMap fun r ↦ [r.value, r.cost]

/-- The numbers that a solution reports, whatever trace comes with it. -/
def Solution.numbers (sol : Solution α) : List α :=
  sol.values.getD [] ++ sol.objectiveValue.toList ++ sol.analysis.elim [] Analysis.numbers

end

theorem Analysis.numbers_toJson (a : Analysis Float) : a.toJson.numbers = a.numbers := by
  simp [Analysis.toJson, Json.numbers, Json.numbersOfFields, Json.numbersOfField,
    Json.numbers_list, ShadowPrice.toJson, ReducedCost.toJson, Analysis.numbers,
    List.map_eq_flatMap]

theorem Step.numbers_toJson (s : Step Float) : s.toJson.numbers = s.grid.flatten := by
  obtain ⟨phase, iteration, pivot, basis, grid⟩ := s
  cases pivot <;> simp [toJson, Json.numbers, Json.numbersOfFields, Json.numbersOfField,
    Json.numbersOfItems, Json.numbers_list, Json.numbers_optional, List.flatMap_id']

theorem Trace.numbers_toJson (t : Trace Float) :
    t.toJson.numbers = t.steps.flatMap (·.grid.flatten) := by
  simp [toJson, Json.numbers, Json.numbersOfFields, Json.numbersOfField, Json.numbers_list,
    Step.numbers_toJson]

/-- The numbers in the JSON form of a solution are those that it reports, with those of its trace
after them. -/
theorem Solution.numbers_toJson_eq_append (sol : Solution Float) :
    sol.toJson.numbers = sol.numbers ++ sol.trace.elim [] (·.toJson.numbers) := by
  obtain ⟨status, values, objectiveValue, iterations, analysis, trace⟩ := sol
  have hvalues : (Json.optional (.list .number) values).numbers = values.getD [] := by
    rw [Json.numbers_optional]
    cases values with
    | none => rfl
    | some values => exact Json.numbers_list_number values
  have hobjective : (Json.optional .number objectiveValue).numbers = objectiveValue.toList := by
    cases objectiveValue <;> rfl
  have hanalysis : (Json.optional (·.toJson) analysis).numbers
      = analysis.elim [] Analysis.numbers := by
    rw [Json.numbers_optional]
    cases analysis with
    | none => rfl
    | some a => exact a.numbers_toJson
  simp [toJson, Json.numbers, Json.numbersOfFields, Json.numbersOfField, hvalues, hobjective,
    hanalysis, Json.numbers_optional, numbers]

/-- **The numbers in the JSON form of a solution** are those that it reports. -/
theorem Solution.numbers_toJson (sol : Solution Float) :
    sol.untraced.toJson.numbers = sol.numbers := by
  rw [numbers_toJson_eq_append]
  exact List.append_nil _

/-- **A number is written as `null`** exactly if it is not finite. -/
theorem Json.numberText_eq_null_iff (x : Float) :
    numberText x = "null".toList ↔ Scalar.isFinite x = false := by
  rw [numberText]
  split_ifs with hfinite
  · refine iff_of_false (fun heq ↦ ?_) fun h ↦ ?_
    · have hmem : 'l' ∈ numberLayout.write x := by
        rw [heq]
        decide
      exact Decimal.Foreign.notMem_write ⟨rfl, by decide⟩ (by decide) (by decide) x hmem
    · cases hfinite.symm.trans h
  · exact iff_of_true rfl (Bool.not_eq_true _ ▸ hfinite)

end LinearProgramming
