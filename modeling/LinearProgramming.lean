import LinearProgramming.CommandLine.Argument
import LinearProgramming.CommandLine.Invocation
import LinearProgramming.CommandLine.Response
import LinearProgramming.Decimal.Binary
import LinearProgramming.Decimal.Layout
import LinearProgramming.Decimal.Shortest
import LinearProgramming.Json.Basic
import LinearProgramming.Json.Decode
import LinearProgramming.Json.Encode
import LinearProgramming.Json.Fault
import LinearProgramming.Json.Reader
import LinearProgramming.Json.Skip
import LinearProgramming.Json.Token
import LinearProgramming.Main
import LinearProgramming.Problem.Basic
import LinearProgramming.Problem.Dual
import LinearProgramming.Problem.Feasible
import LinearProgramming.Proofs.Checked.Access
import LinearProgramming.Proofs.Checked.Engine
import LinearProgramming.Proofs.Checked.PivotRule
import LinearProgramming.Proofs.Checked.ReadOff
import LinearProgramming.Proofs.Checked.Sheet
import LinearProgramming.Proofs.Checked.Solve
import LinearProgramming.Proofs.Checked.StandardForm
import LinearProgramming.Proofs.Checked.Trace
import LinearProgramming.Proofs.CommandLine.Outcome
import LinearProgramming.Proofs.Decimal.Binary
import LinearProgramming.Proofs.Decimal.Fixed
import LinearProgramming.Proofs.Decimal.Shortest
import LinearProgramming.Proofs.Decimal.Text
import LinearProgramming.Proofs.Json.Grammar
import LinearProgramming.Proofs.Json.Nearest
import LinearProgramming.Proofs.Json.Numbers
import LinearProgramming.Proofs.Json.Numerals
import LinearProgramming.Proofs.Json.Parts
import LinearProgramming.Proofs.Json.Problem
import LinearProgramming.Proofs.Json.Reads
import LinearProgramming.Proofs.Json.Records
import LinearProgramming.Proofs.Json.Skip
import LinearProgramming.Proofs.Json.Solution
import LinearProgramming.Proofs.Json.Strings
import LinearProgramming.Proofs.Json.Writing
import LinearProgramming.Proofs.Problem.Canonical
import LinearProgramming.Proofs.Problem.Certificate
import LinearProgramming.Proofs.Problem.Dual
import LinearProgramming.Proofs.Problem.Feasible
import LinearProgramming.Proofs.Problem.Signs
import LinearProgramming.Proofs.Problem.WellFormed
import LinearProgramming.Proofs.Report.Number
import LinearProgramming.Proofs.Report.Table
import LinearProgramming.Proofs.Report.Whole
import LinearProgramming.Proofs.Row
import LinearProgramming.Proofs.Run.Carried
import LinearProgramming.Proofs.Run.Concludes
import LinearProgramming.Proofs.Run.Counted
import LinearProgramming.Proofs.Run.Cycle
import LinearProgramming.Proofs.Run.Exact
import LinearProgramming.Proofs.Run.Finite
import LinearProgramming.Proofs.Run.LastTableau
import LinearProgramming.Proofs.Run.Leftover
import LinearProgramming.Proofs.Run.Monotone
import LinearProgramming.Proofs.Run.Path
import LinearProgramming.Proofs.Run.PhaseOne
import LinearProgramming.Proofs.Run.Prices
import LinearProgramming.Proofs.Run.Reached
import LinearProgramming.Proofs.Run.Replay
import LinearProgramming.Proofs.Run.Represents
import LinearProgramming.Proofs.Run.Scale
import LinearProgramming.Proofs.Run.Settles
import LinearProgramming.Proofs.Run.Signs
import LinearProgramming.Proofs.Run.Told
import LinearProgramming.Proofs.Run.Trail
import LinearProgramming.Proofs.Run.Units
import LinearProgramming.Proofs.Scalar.Double
import LinearProgramming.Proofs.Scalar.DoubleSigns
import LinearProgramming.Proofs.Scalar.Magnitude
import LinearProgramming.Proofs.Scalar.Nearest
import LinearProgramming.Proofs.Scalar.Rounding
import LinearProgramming.Proofs.Scalar.Signs
import LinearProgramming.Proofs.Scalar.Units
import LinearProgramming.Proofs.Solve.Certificate
import LinearProgramming.Proofs.Solve.Duality
import LinearProgramming.Proofs.Solve.Exact
import LinearProgramming.Proofs.Solve.Finite
import LinearProgramming.Proofs.Solve.Iterations
import LinearProgramming.Proofs.Solve.Limit
import LinearProgramming.Proofs.Solve.NearOptimal
import LinearProgramming.Proofs.Solve.Nondegenerate
import LinearProgramming.Proofs.Solve.PhaseOne
import LinearProgramming.Proofs.Solve.Redundant
import LinearProgramming.Proofs.Solve.Replay
import LinearProgramming.Proofs.Solve.Scale
import LinearProgramming.Proofs.Solve.Signs
import LinearProgramming.Proofs.Solve.Slackness
import LinearProgramming.Proofs.Solve.Told
import LinearProgramming.Proofs.Solve.Tolerance
import LinearProgramming.Proofs.Solve.Trail
import LinearProgramming.Proofs.Solve.Units
import LinearProgramming.Proofs.Solve.Vertex
import LinearProgramming.Proofs.StandardForm.Columns
import LinearProgramming.Proofs.StandardForm.Feasible
import LinearProgramming.Proofs.StandardForm.Layout
import LinearProgramming.Proofs.StandardForm.Points
import LinearProgramming.Proofs.StandardForm.Signs
import LinearProgramming.Proofs.Tableau.BasicSolution
import LinearProgramming.Proofs.Tableau.Choice
import LinearProgramming.Proofs.Tableau.Finite
import LinearProgramming.Proofs.Tableau.Installed
import LinearProgramming.Proofs.Tableau.Objective
import LinearProgramming.Proofs.Tableau.Pivot
import LinearProgramming.Proofs.Tableau.PivotRule
import LinearProgramming.Proofs.Tableau.Reversal
import LinearProgramming.Proofs.Tableau.Scale
import LinearProgramming.Proofs.Tableau.Shape
import LinearProgramming.Proofs.Tableau.Similar
import LinearProgramming.Proofs.Tableau.Sweep
import LinearProgramming.Proofs.Tableau.Units
import LinearProgramming.Report.Number
import LinearProgramming.Report.Solution
import LinearProgramming.Run.Basic
import LinearProgramming.Run.Event
import LinearProgramming.Scalar
import LinearProgramming.Solution.Basic
import LinearProgramming.Solution.ReadOff
import LinearProgramming.Solver
import LinearProgramming.StandardForm
import LinearProgramming.Tableau.Basic
import LinearProgramming.Tableau.PivotRule
import LinearProgramming.Text
