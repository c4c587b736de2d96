import LinearProgramming.Json.Encode
import LinearProgramming.Json.Reader

/-!
# Problems and solutions from JSON

The readers of the two documents, field by field. In a problem the constraints and the names may be
missing; in a solution whatever may be absent may be missing or `null`. The two ends of an array of
fields are not alike: only the fields of a problem and the name of a constraint can be left off.
-/

namespace LinearProgramming

open Json

variable [NumberReading]

/-! ## Problems -/

def Sense.words : List (String × Sense) :=
  [("maximize", .maximize), ("minimize", .minimize)]

/-- The words for a relation: its symbol, and letters for where symbols are inconvenient. -/
def Relation.words : List (String × Relation) :=
  [("<=", .le), ("le", .le), (">=", .ge), ("ge", .ge), ("=", .eq), ("eq", .eq)]

/-- A constraint as far as it has been read. -/
structure ConstraintDraft where
  name : Option (Option String)
  coefficients : Option (List Float)
  relation : Option Relation
  rhs : Option Float

def constraintRecord : Record ConstraintDraft (Constraint Float) where
  name := "Constraint"
  fields := [
    (Field.of "name" (·.name) (fun d x ↦ { d with name := some x })
      (readOptional readString)).cutOff,
    Field.of "coefficients" (·.coefficients) (fun d x ↦ { d with coefficients := some x })
      (readList readFloat),
    Field.of "relation" (·.relation) (fun d x ↦ { d with relation := some x })
      (readWord Relation.words),
    Field.of "rhs" (·.rhs) (fun d x ↦ { d with rhs := some x }) readFloat]
  empty := { name := none, coefficients := none, relation := none, rhs := none }
  finish := fun d ↦ do
    let coefficients ← required "coefficients" d.coefficients
    let relation ← required "relation" d.relation
    let rhs ← required "rhs" d.rhs
    return { name := d.name.join, coefficients := coefficients, relation := relation, rhs := rhs }

structure ProblemDraft where
  sense : Option Sense
  objective : Option (List Float)
  constraints : Option (List (Constraint Float))
  variableNames : Option (List String)

def problemRecord : Record ProblemDraft (Problem Float) where
  name := "Problem"
  fields := [
    Field.of "sense" (·.sense) (fun d x ↦ { d with sense := some x }) (readWord Sense.words),
    Field.of "objective" (·.objective) (fun d x ↦ { d with objective := some x })
      (readList readFloat),
    (Field.of "constraints" (·.constraints) (fun d x ↦ { d with constraints := some x })
      (readList constraintRecord.read)).cutOff,
    (Field.of "variable_names" (·.variableNames) (fun d x ↦ { d with variableNames := some x })
      (readList readString)).cutOff]
  empty := { sense := none, objective := none, constraints := none, variableNames := none }
  finish := fun d ↦ do
    let sense ← required "sense" d.sense
    let objective ← required "objective" d.objective
    return {
      sense := sense
      objective := objective
      constraints := d.constraints.getD []
      variableNames := d.variableNames.getD [] }

def Problem.ofJson (text : String) : Except Fault (Problem Float) :=
  readDocument problemRecord.read text

/-! ## Solutions -/

def Status.words : List (String × Status) :=
  [("optimal", .optimal), ("infeasible", .infeasible), ("unbounded", .unbounded)]

def Phase.words : List (String × Phase) := [("One", .one), ("Two", .two)]

structure ShadowPriceDraft where
  constraint : Option String
  value : Option Float

def shadowPriceRecord : Record ShadowPriceDraft (ShadowPrice Float) where
  name := "ShadowPrice"
  fields := [
    Field.of "constraint" (·.constraint) (fun d x ↦ { d with constraint := some x }) readString,
    Field.of "value" (·.value) (fun d x ↦ { d with value := some x }) readFloat]
  empty := { constraint := none, value := none }
  finish := fun d ↦ do
    let constraint ← required "constraint" d.constraint
    let value ← required "value" d.value
    return { constraint := constraint, value := value }

structure ReducedCostDraft where
  variableName : Option String
  value : Option Float
  cost : Option Float
  isBasic : Option Bool

def reducedCostRecord : Record ReducedCostDraft (ReducedCost Float) where
  name := "ReducedCost"
  fields := [
    Field.of "variable" (·.variableName) (fun d x ↦ { d with variableName := some x }) readString,
    Field.of "value" (·.value) (fun d x ↦ { d with value := some x }) readFloat,
    Field.of "reduced_cost" (·.cost) (fun d x ↦ { d with cost := some x }) readFloat,
    Field.of "is_basic" (·.isBasic) (fun d x ↦ { d with isBasic := some x }) readBool]
  empty := { variableName := none, value := none, cost := none, isBasic := none }
  finish := fun d ↦ do
    let variableName ← required "variable" d.variableName
    let value ← required "value" d.value
    let cost ← required "reduced_cost" d.cost
    let isBasic ← required "is_basic" d.isBasic
    return { variableName := variableName, value := value, cost := cost, isBasic := isBasic }

structure AnalysisDraft where
  shadowPrices : Option (List (ShadowPrice Float))
  reducedCosts : Option (List (ReducedCost Float))
  bindingConstraints : Option (List String)

def analysisRecord : Record AnalysisDraft (Analysis Float) where
  name := "Analysis"
  fields := [
    Field.of "shadow_prices" (·.shadowPrices) (fun d x ↦ { d with shadowPrices := some x })
      (readList shadowPriceRecord.read),
    Field.of "reduced_costs" (·.reducedCosts) (fun d x ↦ { d with reducedCosts := some x })
      (readList reducedCostRecord.read),
    Field.of "binding_constraints" (·.bindingConstraints)
      (fun d x ↦ { d with bindingConstraints := some x }) (readList readString)]
  empty := { shadowPrices := none, reducedCosts := none, bindingConstraints := none }
  finish := fun d ↦ do
    let shadowPrices ← required "shadow_prices" d.shadowPrices
    let reducedCosts ← required "reduced_costs" d.reducedCosts
    let bindingConstraints ← required "binding_constraints" d.bindingConstraints
    return {
      shadowPrices := shadowPrices
      reducedCosts := reducedCosts
      bindingConstraints := bindingConstraints }

structure StepDraft where
  phase : Option Phase
  iteration : Option Nat
  pivot : Option (Option (Nat × Nat))
  basis : Option (List Nat)
  grid : Option (List (List Float))

def stepRecord : Record StepDraft (Step Float) where
  name := "Step"
  fields := [
    Field.of "phase" (·.phase) (fun d x ↦ { d with phase := some x }) (readWord Phase.words),
    Field.of "iteration" (·.iteration) (fun d x ↦ { d with iteration := some x }) readCount,
    Field.of "pivot" (·.pivot) (fun d x ↦ { d with pivot := some x })
      (readOptional (readPair readCount readCount)),
    Field.of "basis" (·.basis) (fun d x ↦ { d with basis := some x }) (readList readCount),
    Field.of "grid" (·.grid) (fun d x ↦ { d with grid := some x }) (readList (readList readFloat))]
  empty := { phase := none, iteration := none, pivot := none, basis := none, grid := none }
  finish := fun d ↦ do
    let phase ← required "phase" d.phase
    let iteration ← required "iteration" d.iteration
    let basis ← required "basis" d.basis
    let grid ← required "grid" d.grid
    return {
      phase := phase
      iteration := iteration
      pivot := d.pivot.join
      basis := basis
      grid := grid }

structure TraceDraft where
  columnLabels : Option (List String)
  steps : Option (List (Step Float))

def traceRecord : Record TraceDraft (Trace Float) where
  name := "Trace"
  fields := [
    Field.of "column_labels" (·.columnLabels) (fun d x ↦ { d with columnLabels := some x })
      (readList readString),
    Field.of "steps" (·.steps) (fun d x ↦ { d with steps := some x }) (readList stepRecord.read)]
  empty := { columnLabels := none, steps := none }
  finish := fun d ↦ do
    let columnLabels ← required "column_labels" d.columnLabels
    let steps ← required "steps" d.steps
    return { columnLabels := columnLabels, steps := steps }

structure SolutionDraft where
  status : Option Status
  values : Option (Option (List Float))
  objectiveValue : Option (Option Float)
  iterations : Option Nat
  analysis : Option (Option (Analysis Float))
  trace : Option (Option (Trace Float))

def solutionRecord : Record SolutionDraft (Solution Float) where
  name := "Solution"
  fields := [
    Field.of "status" (·.status) (fun d x ↦ { d with status := some x }) (readWord Status.words),
    Field.of "values" (·.values) (fun d x ↦ { d with values := some x })
      (readOptional (readList readFloat)),
    Field.of "objective_value" (·.objectiveValue) (fun d x ↦ { d with objectiveValue := some x })
      (readOptional readFloat),
    Field.of "iterations" (·.iterations) (fun d x ↦ { d with iterations := some x }) readCount,
    Field.of "analysis" (·.analysis) (fun d x ↦ { d with analysis := some x })
      (readOptional analysisRecord.read),
    Field.of "trace" (·.trace) (fun d x ↦ { d with trace := some x })
      (readOptional traceRecord.read)]
  empty := {
    status := none
    values := none
    objectiveValue := none
    iterations := none
    analysis := none
    trace := none }
  finish := fun d ↦ do
    let status ← required "status" d.status
    let iterations ← required "iterations" d.iterations
    return {
      status := status
      values := d.values.join
      objectiveValue := d.objectiveValue.join
      iterations := iterations
      analysis := d.analysis.join
      trace := d.trace.join }

def Solution.ofJson (text : String) : Except Fault (Solution Float) :=
  readDocument solutionRecord.read text

end LinearProgramming
