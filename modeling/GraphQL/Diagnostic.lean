import GraphQL.Position

/-!
Diagnostics: what a client is told is wrong with a request. A diagnostic names
the positions it refers to; one about the request as a whole names none.
-/

namespace GraphQL

/-- A message and the positions it refers to. -/
structure Diagnostic where
  message : String
  locations : List Position
deriving DecidableEq

namespace Diagnostic

/-- A diagnostic about the request as a whole. -/
def ofMessage (message : String) : Diagnostic := ⟨message, []⟩

/-- A diagnostic about one position. -/
def located (message : String) (p : Position) : Diagnostic := ⟨message, [p]⟩

/-- The first position, if there is one. -/
def primary? (d : Diagnostic) : Option Position := d.locations.head?

/-- The message, followed by the first position in brackets. -/
def display (d : Diagnostic) : String :=
  match d.primary? with
  | some p => s!"{d.message} ({p.display})"
  | none => d.message

/-- The form sent to clients; positions are left out when there are none. -/
def toJson (d : Diagnostic) : Json :=
  .object <| ("message", .string d.message) ::
    if d.locations.isEmpty then [] else [("locations", .array (d.locations.map Position.toJson))]

/-- The form of a list of diagnostics. -/
def listToJson (ds : List Diagnostic) : Json := .array (ds.map toJson)

end Diagnostic

end GraphQL
