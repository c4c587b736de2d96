import LinearProgramming.CommandLine.Argument

/-!
# What is asked for on a command line

The arguments are a command, options, and the file that the command works on. Options stand before
or after the file. Short ones can share a dash, the last of them taking the rest as its value, and
behind two dashes alone nothing is an option. Only how much to report can be said in front of the
command, and only that can be said more than once.
-/

namespace LinearProgramming

inductive OutputFormat
  | pretty
  | json
  deriving DecidableEq

structure SolveOptions where
  /-- Show every tableau. -/
  steps : Bool
  /-- Show what the last tableau says about the problem. -/
  analysis : Bool
  format : OutputFormat
  maxIterations : Option Nat
  tolerance : Option Float

inductive Command
  | solve (options : SolveOptions)
  | check
  | dual

/-- A command line that has been understood. -/
structure Invocation where
  /-- How often more reporting was asked for. -/
  verbosity : Nat
  command : Command
  file : String

namespace CommandLine

/-! ## Options -/

inductive Key
  | verbose
  | steps
  | analysis
  | format
  | maxIterations
  | tolerance
  deriving DecidableEq

namespace Key

/-- The name behind two dashes. -/
def long : Key → String
  | verbose => "verbose"
  | steps => "steps"
  | analysis => "analysis"
  | format => "format"
  | maxIterations => "max-iterations"
  | tolerance => "tolerance"

/-- The letter behind one dash. -/
def short? : Key → Option Char
  | verbose => some 'v'
  | steps => some 's'
  | analysis => some 'a'
  | format => some 'f'
  | maxIterations => none
  | tolerance => none

def takesValue : Key → Bool
  | format | maxIterations | tolerance => true
  | _ => false

end Key

def longKey? (allowed : List Key) (name : List Char) : Option Key :=
  allowed.find? fun key ↦ key.long.toList == name

def shortKey? (allowed : List Key) (letter : Char) : Option Key :=
  allowed.find? fun key ↦ key.short? == some letter

/-- Whether an argument is made of options, so that it cannot be the value of one. -/
def looksLikeOption : List Char → Bool
  | '-' :: _ :: _ => true
  | _ => false

/-- An argument made of options, taken apart: those that are complete, each with its value, and the
one, if any, whose value is the next argument. -/
structure OptionGroup where
  complete : List (Key × String)
  open? : Option Key

/-- Take an option with a long name apart, `name` or `name=value`. -/
def readLong (allowed : List Key) (text : List Char) : Option OptionGroup :=
  let name := text.takeWhile (· != '=')
  let value? := (text.dropWhile (· != '=')).tail?
  match longKey? allowed name, value? with
  | none, _ => none
  | some key, none =>
    if key.takesValue then some { complete := [], open? := some key }
    else some { complete := [(key, "")], open? := none }
  | some key, some value =>
    if key.takesValue then some { complete := [(key, String.ofList value)], open? := none }
    else none

/-- Take options that share a dash apart. One that takes a value takes all that follows it, after an
equals sign or at once. -/
def readShort (allowed : List Key) : List Char → Option OptionGroup
  | [] => some { complete := [], open? := none }
  | letter :: rest =>
    match shortKey? allowed letter with
    | none => none
    | some key =>
      if key.takesValue then
        match rest with
        | [] => some { complete := [], open? := some key }
        | '=' :: value => some { complete := [(key, String.ofList value)], open? := none }
        | value => some { complete := [(key, String.ofList value)], open? := none }
      else
        (readShort allowed rest).map fun group ↦
          { group with complete := (key, "") :: group.complete }

/-- Take an argument apart, if it is made of options; the outer option says whether it is. -/
def readGroup? (allowed : List Key) : List Char → Option (Option OptionGroup)
  | '-' :: '-' :: name => some (readLong allowed name)
  | '-' :: letter :: rest => some (readShort allowed (letter :: rest))
  | _ => none

/-! ## Arguments -/

/-- The arguments sorted into options with their values, in order, and the others. -/
structure Arguments where
  options : List (Key × String)
  operands : List String

def sort (allowed : List Key) : List String → Option Arguments
  | [] => some { options := [], operands := [] }
  | arg :: rest =>
    if arg = "--" then some { options := [], operands := rest }
    else
      match readGroup? allowed arg.toList with
      | none => (sort allowed rest).map fun a ↦ { a with operands := arg :: a.operands }
      | some none => none
      | some (some { complete, open? := none }) =>
        (sort allowed rest).map fun a ↦ { a with options := complete ++ a.options }
      | some (some { complete, open? := some key }) =>
        match rest with
        | [] => none
        | value :: rest =>
          if looksLikeOption value.toList then none
          else (sort allowed rest).map fun a ↦
            { a with options := complete ++ (key, value) :: a.options }

namespace Arguments

/-- The value of an option that may be given once, in the given reading. Outside the inner option it
is given too often or has no such value. -/
def once? {α : Type} (a : Arguments) (key : Key) (read : String → Option α) :
    Option (Option α) :=
  match a.options.filter (·.1 == key) with
  | [] => some none
  | [(_, value)] => (read value).map some
  | _ => none

/-- Whether a flag that may be given once is there. -/
def flag? (a : Arguments) (key : Key) : Option Bool := (a.once? key fun _ ↦ some ()).map (·.isSome)

/-- The only operand. It is not empty. -/
def operand? (a : Arguments) : Option String :=
  match a.operands with
  | [file] => if file.isEmpty then none else some file
  | _ => none

/-- How often more reporting is asked for. -/
def verbosity (a : Arguments) : Nat := a.options.countP (·.1 == .verbose)

end Arguments

/-! ## Commands -/

def format? (s : String) : Option OutputFormat :=
  if s = "pretty" then some .pretty else if s = "json" then some .json else none

def solveOptions? (a : Arguments) : Option SolveOptions := do
  let steps ← a.flag? .steps
  let analysis ← a.flag? .analysis
  let format ← a.once? .format format?
  let maxIterations ← a.once? .maxIterations Argument.count?
  let tolerance ← a.once? .tolerance Argument.float?
  return {
    steps := steps
    analysis := analysis
    format := format.getD .pretty
    maxIterations := maxIterations
    tolerance := tolerance }

/-- The options that each command allows, by its name. -/
def allowed? (name : String) : Option (List Key) :=
  if name = "solve" then some [.verbose, .steps, .analysis, .format, .maxIterations, .tolerance]
  else if name = "check" ∨ name = "dual" then some [.verbose]
  else none

def command? (name : String) (a : Arguments) : Option Command :=
  if name = "solve" then (solveOptions? a).map .solve
  else if name = "check" then some .check
  else if name = "dual" then some .dual
  else none

/-- Understand what stands behind a command. -/
def afterCommand? (verbosity : Nat) (name : String) (args : List String) : Option Invocation := do
  let allowed ← allowed? name
  let a ← sort allowed args
  let command ← command? name a
  let file ← a.operand?
  return { verbosity := verbosity + a.verbosity, command := command, file := file }

/-- Understand a command line, `verbosity` having been asked for so far. -/
def understandFrom (verbosity : Nat) : List String → Option Invocation
  | [] => none
  | arg :: rest =>
    match readGroup? [.verbose] arg.toList with
    | none => afterCommand? verbosity arg rest
    | some none => none
    | some (some group) => understandFrom (verbosity + group.complete.length) rest

def understand (args : List String) : Option Invocation := understandFrom 0 args

end CommandLine

end LinearProgramming
