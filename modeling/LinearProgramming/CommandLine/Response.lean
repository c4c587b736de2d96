import LinearProgramming.CommandLine.Invocation
import LinearProgramming.Json.Decode
import LinearProgramming.Problem.Dual
import LinearProgramming.Report.Solution
import LinearProgramming.Solver

/-!
# Answering a command line

What the program does, as a function of its arguments and of what its file holds: the lines it
writes, the events it reports, and its exit code. Results are written to standard output and
complaints to standard error, never both. The exit code is zero for an optimum, a problem that is
well formed, or a dual; one for everything else that could be asked for; and two for a command line
that makes no sense.
-/

namespace LinearProgramming

/-- Why a file cannot be read as text. -/
inductive ReadFault
  | notFound
  | isDirectory
  | notDirectory
  | nameTooLong
  | notPermitted
  | notText
  | other (reason : String)
  deriving DecidableEq

def ReadFault.message : ReadFault → String
  | notFound => "No such file or directory (os error 2)"
  | isDirectory => "Is a directory (os error 21)"
  | notDirectory => "Not a directory (os error 20)"
  | nameTooLong => "File name too long (os error 36)"
  | notPermitted => "Permission denied (os error 13)"
  | notText => "stream did not contain valid UTF-8"
  | other reason => reason

/-- The text that bytes encode. -/
def decodeText (bytes : ByteArray) : Except ReadFault String :=
  match String.fromUTF8? bytes with
  | some text => .ok text
  | none => .error .notText

def Fault.message : Fault → String
  | malformed => "not a JSON value"
  | endOfText => "unexpected end of text"
  | mismatch cause => cause.message

def Sense.title : Sense → String
  | maximize => "Maximize"
  | minimize => "Minimize"

/-- What the program does. -/
structure Response where
  exitCode : Nat
  /-- The lines of standard output. -/
  output : List String
  /-- The lines of standard error, events left out. -/
  complaints : List String
  /-- What happened on the way, most important or not. -/
  events : List (Event Float)

namespace Response

/-- A result, and whether it is what was hoped for. -/
def result (success : Bool) (lines : List String) : Response where
  exitCode := if success then 0 else 1
  output := lines
  complaints := []
  events := []

def failure (lines : List String) : Response where
  exitCode := 1
  output := []
  complaints := lines
  events := []

def refusal : Response where
  exitCode := 2
  output := []
  complaints := [
    "Usage: simplex [-v]... solve [--steps] [--analysis] [--format pretty|json]",
    "               [--max-iterations N] [--tolerance T] FILE",
    "       simplex [-v]... check FILE",
    "       simplex [-v]... dual FILE"]
  events := []

/-- Lines as a text, each ended. -/
def textOf (lines : List String) : String := String.join (lines.map (· ++ "\n"))

end Response

namespace CommandLine

def settings (options : SolveOptions) : Settings Float :=
  let standard : Settings Float := .standard
  { maxIterations := options.maxIterations.getD standard.maxIterations
    tolerance := options.tolerance.getD standard.tolerance
    trace := options.steps }

def solutionLines (options : SolveOptions) (p : Problem Float) (s : Solution Float) :
    List String :=
  match options.format with
  | .json => [s.toJson.indentedText]
  | .pretty => s.lines p options.analysis

def respondSolve (options : SolveOptions) (p : Problem Float) : Response :=
  let (events, outcome) := solveWithEvents (settings options) p
  let response : Response := match outcome with
    | .error fault => .failure [s!"Solve error: {fault.message}"]
    | .ok s => .result s.isOptimal (solutionLines options p s)
  { response with events := events }

def respondCheck (file : String) (p : Problem Float) : Response :=
  match p.validate with
  | .error fault => .failure [s!"✗ {file} has errors:", s!"  {fault.message}"]
  | .ok () =>
    let count (relation : Relation) := p.constraints.countP (·.relation = relation)
    .result true [
      s!"✓ {file} is valid",
      s!"  {p.sense.title}",
      s!"  {p.numVariables} variables",
      s!"  {p.numConstraints} constraints",
      s!"    {count .le} <=",
      s!"    {count .ge} >=",
      s!"    {count .eq} ="]

def respondDual (p : Problem Float) : Response :=
  match p.dual with
  | .error fault => .failure [s!"Dual error: {fault.message}"]
  | .ok d => .result true [d.toJson.indentedText]

/-- Do what was asked for with the problem in the file. -/
def respondTo (invocation : Invocation) (p : Problem Float) : Response :=
  match invocation.command with
  | .solve options => respondSolve options p
  | .check => respondCheck invocation.file p
  | .dual => respondDual p

/-- Do what was asked for with what the file holds. -/
def respondToBytes (invocation : Invocation) (contents : Except ReadFault ByteArray) : Response :=
  match contents >>= decodeText with
  | .error fault => .failure [s!"Error reading file: {fault.message}"]
  | .ok text =>
    match Problem.ofJson text with
    | .error fault => .failure [s!"Parse error: {fault.message}"]
    | .ok p => respondTo invocation p

/-- Answer a command line, files being read by `read`. -/
def respond (read : String → Except ReadFault ByteArray) (args : List String) : Response :=
  match understand args with
  | none => .refusal
  | some invocation => respondToBytes invocation (read invocation.file)

/-- The least important level of events that is shown when more was asked for so often. -/
def shownLevels (verbosity : Nat) : List Level :=
  match verbosity with
  | 0 => [.warn]
  | 1 => [.warn, .debug]
  | _ => [.warn, .debug, .trace]

/-- The lines that show the events of a response, as many as were asked for. -/
def eventLines (verbosity : Nat) (response : Response) : List String :=
  (response.events.filter fun e ↦ (shownLevels verbosity).contains e.level).map fun e ↦
    s!"[{e.level.keyword}] {e.message plainNumber}"

end CommandLine

end LinearProgramming
