import GraphQL.Diagnostic
import GraphQL.Json.Printer

/-!
Reports: diagnostics as text, either in the form sent to clients or one a line
for a terminal, with or without colours.
-/

namespace GraphQL.Check

/-- The colours of a report. -/
inductive Style where
  | failure
  | hint
  | success
deriving DecidableEq

/-- The terminal's code for a colour; a failure is bold as well. -/
def Style.code : Style → String
  | .failure => "1;31"
  | .hint => "34"
  | .success => "32"

/-- A text in a colour, or as it is where there are none. -/
def styled (color : Bool) (style : Style) (text : String) : String :=
  if color then "\x1b[" ++ style.code ++ "m" ++ text ++ "\x1b[0m" else text

/-- The diagnostics in the form sent to clients, one item a line. -/
def jsonReport (diagnostics : List Diagnostic) : String :=
  (Diagnostic.listToJson diagnostics).pretty 0

/-- The line for one diagnostic. -/
def diagnosticLine (color : Bool) (diagnostic : Diagnostic) : String :=
  "  " ++ styled color .hint "-->" ++ " " ++ diagnostic.display ++ "\n"

/-- The diagnostics of a file for a terminal, with their number at the end. -/
def prettyReport (color : Bool) (path : String) (diagnostics : List Diagnostic) : String :=
  styled color .failure "Error" ++ " " ++ path ++ "\n" ++
    String.join (diagnostics.map (diagnosticLine color)) ++
    styled color .failure "Failed:" ++ s!" {diagnostics.length} diagnostic(s)\n"

end GraphQL.Check
