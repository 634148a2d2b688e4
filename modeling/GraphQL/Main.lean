import GraphQL.Check.Run

/-!
The command line: checks a document against a schema, both encoded as JSON. The
exit code is 0 for a valid document, 1 for any diagnostic or failure and 2 for
arguments that cannot be understood.
-/

namespace GraphQL.Check

/-- The paths that a command reads. -/
def Command.paths : Command → List String
  | .validate schema document _ => [schema, document]
  | .version => []

/-- The cause behind an error of the system, whose code may come with its sign turned. -/
def ReadError.ofSystem (error : IO.Error) : ReadError :=
  match error with
  | .noFileOrDirectory _ _ _ => .missing
  | .inappropriateType _ code _ => if code = 21 then .isDirectory else .notDirectory
  | .invalidArgument _ code _ => if code = 36 ∨ 0 - code = 36 then .tooLong else .other (toString error)
  | error => .other (toString error)

/-- Reads one file of the system. -/
def readFile (path : String) : BaseIO (Except ReadError String) := do
  if let some error := pathError? path then return .error error
  match ← (IO.FS.readBinFile path).toBaseIO with
  | .error error => return .error (.ofSystem error)
  | .ok bytes =>
    match String.fromUTF8? bytes with
    | some text => return .ok text
    | none => return .error (.other "stream did not contain valid UTF-8")

/-- Reads some files at once; nothing else can be read from the source. -/
def sourceOf (paths : List String) : BaseIO Source := do
  let files ← paths.mapM fun path => return (path, ← readFile path)
  return fun path => ((files.find? fun file => file.1 == path).map Prod.snd).getD (.error .missing)

end GraphQL.Check

open GraphQL.Check in
/-- Runs the program on the arguments of the command line. -/
def main (arguments : List String) : IO UInt32 := do
  match Invocation.ofArguments? arguments with
  | none =>
    IO.eprintln "Usage: sgql [--verbose] [--quiet] validate --schema FILE --document FILE [--format pretty|json]"
    IO.eprintln "       sgql [--verbose] [--quiet] version"
    return 2
  | some invocation =>
    let source ← sourceOf invocation.command.paths
    let outcome := run (← (← IO.getStdout).isTty) source invocation
    IO.print outcome.stdout
    IO.eprint outcome.stderr
    match outcome.result with
    | .ok code => return code
    | .error failure =>
      IO.eprintln ("Error: " ++ failure.message)
      return 1
