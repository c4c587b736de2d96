import LinearProgramming.CommandLine.Response

/-!
# The program

The outer layer: read the file that the command line names, answer, and write the answer out.
-/

namespace LinearProgramming

/-- The fault that a system error number stands for. The number may come with its sign turned. -/
def readFault (code : UInt32) (details : String) : ReadFault :=
  match min code (0 - code) with
  | 2 => .notFound
  | 13 => .notPermitted
  | 20 => .notDirectory
  | 21 => .isDirectory
  | 36 => .nameTooLong
  | _ => .other details

/-- Read a file, or say why not. -/
def readBytes (file : String) : IO (Except ReadFault ByteArray) := do
  try
    return .ok (← IO.FS.readBinFile file)
  catch
    | .noFileOrDirectory _ code details
    | .permissionDenied _ code details
    | .inappropriateType _ code details
    | .invalidArgument _ code details => return .error (readFault code details)
    | e => return .error (.other (toString e))

/-- Write the answer to a command line, and return its exit code. -/
def answer (args : List String) : IO UInt32 := do
  match CommandLine.understand args with
  | none =>
    IO.eprint (Response.textOf Response.refusal.complaints)
    return Response.refusal.exitCode.toUInt32
  | some invocation =>
    let response := CommandLine.respondToBytes invocation (← readBytes invocation.file)
    IO.eprint (Response.textOf (CommandLine.eventLines invocation.verbosity response))
    IO.eprint (Response.textOf response.complaints)
    IO.print (Response.textOf response.output)
    return response.exitCode.toUInt32

end LinearProgramming

def main (args : List String) : IO UInt32 := LinearProgramming.answer args
