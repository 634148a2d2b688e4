import GraphQL.Diagnostic
import GraphQL.Json.Reader
import GraphQL.Json.Record
import GraphQL.Text.Blank

/-!
Subscription requests: the query text, the name of the operation and the
values of the variables, taken from a JSON payload.
-/

namespace GraphQL.Subscription

/-- A well-formed request. -/
structure Request where
  query : String
  operationName : Option String
  variableValues : Record

/-- Why a payload is no request. -/
inductive RequestError where
  | invalidPayload
  | missingQuery
  | invalidParameter (name : String)
deriving DecidableEq

namespace RequestError

/-- The text for the client. -/
def message : RequestError → String
  | invalidPayload => "Invalid format in WebSocket payload"
  | missingQuery => "Query not found"
  | invalidParameter name => "Invalid format in request parameter: " ++ name

/-- The diagnostic for the client, which points nowhere. -/
def diagnostic (error : RequestError) : Diagnostic := .ofMessage error.message

end RequestError

namespace Request

/-- The query of a payload, which must not be blank. -/
def query? (members : Record) : Except RequestError String :=
  match members.get? "query" with
  | some (.string query) =>
    if query.toList.all Text.isBlank then .error .missingQuery else .ok query
  | _ => .error .missingQuery

/-- The variables of a payload; `null` stands for none. -/
def variableValues? (members : Record) : Except RequestError Record :=
  match members.get? "variables" with
  | none | some .null => .ok []
  | some (.object values) => .ok values
  | some _ => .error (.invalidParameter "variables")

/-- The operation name of a payload; `null` stands for none. -/
def operationName? (members : Record) : Except RequestError (Option String) :=
  match members.get? "operationName" with
  | none | some .null => .ok none
  | some (.string name) => .ok (some name)
  | some _ => .error (.invalidParameter "operationName")

/-- The request that a payload is. The query is looked at first, then the
variables, then the operation name. -/
def ofPayload : Json → Except RequestError Request
  | .object members => do
    let query ← query? members
    let values ← variableValues? members
    let name ← operationName? members
    return ⟨query, name, values⟩
  | _ => .error .invalidPayload

/-- The request that a text is. -/
def ofText (text : String) : Except RequestError Request :=
  match Json.readWithin? text with
  | some payload => if payload.complete then ofPayload payload.sorted else .error .invalidPayload
  | none => .error .invalidPayload

end Request

end GraphQL.Subscription
