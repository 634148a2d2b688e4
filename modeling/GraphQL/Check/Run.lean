import GraphQL.Check.Files
import GraphQL.Check.Invocation
import GraphQL.Check.Report
import GraphQL.Document.Decoding
import GraphQL.Schema.Decoding
import GraphQL.Validation.Basic

/-!
Running the checker: a schema and a document are read and decoded, and the
diagnostics of the document are reported. The first thing that cannot be read
or decoded ends the run.
-/

namespace GraphQL.Check

/-- Why a run ends without an answer. -/
inductive Failure where
  | unreadable (path : String) (error : ReadError)
  | malformed (path : String)
deriving DecidableEq

/-- The text of a failure. -/
def Failure.message : Failure → String
  | .unreadable path error => "failed to read " ++ path ++ ": " ++ error.message
  | .malformed path => "invalid JSON in " ++ path

/-- What a run writes, and its exit code or why it has none. -/
structure Outcome where
  stdout : String
  stderr : String
  result : Except Failure UInt32

/-- The value that the text at a path encodes. -/
def load {α : Type} (decode : String → Option α) (source : Source) (path : String) : Except Failure α :=
  match source path with
  | .error error => .error (.unreadable path error)
  | .ok text =>
    match decode text with
    | some value => .ok value
    | none => .error (.malformed path)

/-- The diagnostics of the document at one path under the schema at another. The schema is read first. -/
def diagnose (source : Source) (schema document : String) : Except Failure (List Diagnostic) := do
  let schema ← load Schema.ofText? source schema
  let document ← load Document.ofText? source document
  return schema.check document

/-- What a run says of a document without diagnostics. -/
def acceptance (color quiet : Bool) (path : String) : Format → String
  | .json => "[]\n"
  | .pretty => if quiet then "" else styled color .success "OK" ++ " " ++ path ++ "\n"

/-- The outcome for the diagnostics of a document. -/
def conclude (color quiet : Bool) (path : String) (format : Format) (diagnostics : List Diagnostic) : Outcome :=
  if diagnostics.isEmpty then ⟨acceptance color quiet path format, "", .ok 0⟩
  else match format with
    | .json => ⟨jsonReport diagnostics ++ "\n", "", .ok 1⟩
    | .pretty => ⟨"", prettyReport color path diagnostics, .ok 1⟩

/-- What a verbose run says before it begins. -/
def announcement (color : Bool) (path : String) : String :=
  styled color .hint "Checking" ++ " " ++ path ++ "\n"

/-- The line that names the program. -/
def versionLine : String := "sgql 0.1.0\n"

/-- Runs the program. -/
def run (color : Bool) (source : Source) (invocation : Invocation) : Outcome :=
  match invocation.command with
  | .version => ⟨versionLine, "", .ok 0⟩
  | .validate schema document format =>
    let outcome := match diagnose source schema document with
      | .error failure => ⟨"", "", .error failure⟩
      | .ok diagnostics => conclude color invocation.quiet document format diagnostics
    if invocation.verbose then
      { outcome with stdout := announcement color document ++ outcome.stdout }
    else outcome

end GraphQL.Check
