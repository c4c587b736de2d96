import LinearProgramming.Json.Basic
import LinearProgramming.Solution.Basic

/-!
# Problems and solutions as JSON

The JSON form of the two documents. A problem leaves out what it does not have: the name of a
constraint that was given none, and the list of variable names when it is empty. A solution always
has all its fields, `null` standing for what is absent.
-/

namespace LinearProgramming

def Json.list {β : Type} (item : β → Json) (xs : List β) : Json := .array (xs.map item)

def Json.optional {β : Type} (item : β → Json) : Option β → Json
  | none => .null
  | some x => item x

def Phase.keyword : Phase → String
  | one => "One"
  | two => "Two"

def Constraint.toJson (c : Constraint Float) : Json :=
  .object <|
    (match c.name with
      | none => []
      | some name => [("name", .string name)])
    ++ [("coefficients", .list .number c.coefficients),
        ("relation", .string c.relation.symbol),
        ("rhs", .number c.rhs)]

def Problem.toJson (p : Problem Float) : Json :=
  .object <|
    [("sense", .string p.sense.keyword),
     ("objective", .list .number p.objective),
     ("constraints", .list (·.toJson) p.constraints)]
    ++ (if p.variableNames.isEmpty then [] else [("variable_names", .list .string p.variableNames)])

def ShadowPrice.toJson (s : ShadowPrice Float) : Json :=
  .object [("constraint", .string s.constraint), ("value", .number s.value)]

def ReducedCost.toJson (r : ReducedCost Float) : Json :=
  .object
    [("variable", .string r.variableName),
     ("value", .number r.value),
     ("reduced_cost", .number r.cost),
     ("is_basic", .bool r.isBasic)]

def Analysis.toJson (a : Analysis Float) : Json :=
  .object
    [("shadow_prices", .list (·.toJson) a.shadowPrices),
     ("reduced_costs", .list (·.toJson) a.reducedCosts),
     ("binding_constraints", .list .string a.bindingConstraints)]

def Step.toJson (s : Step Float) : Json :=
  .object
    [("phase", .string s.phase.keyword),
     ("iteration", .count s.iteration),
     ("pivot", .optional (fun (i, j) ↦ .array [.count i, .count j]) s.pivot),
     ("basis", .list .count s.basis),
     ("grid", .list (.list .number) s.grid)]

def Trace.toJson (t : Trace Float) : Json :=
  .object
    [("column_labels", .list .string t.columnLabels),
     ("steps", .list (·.toJson) t.steps)]

def Solution.toJson (s : Solution Float) : Json :=
  .object
    [("status", .string s.status.keyword),
     ("values", .optional (.list .number) s.values),
     ("objective_value", .optional .number s.objectiveValue),
     ("iterations", .count s.iterations),
     ("analysis", .optional (·.toJson) s.analysis),
     ("trace", .optional (·.toJson) s.trace)]

end LinearProgramming
