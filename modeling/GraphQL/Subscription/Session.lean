import GraphQL.Document.Selecting
import GraphQL.Subscription.Request
import GraphQL.Subscription.Run
import GraphQL.Validation.Basic

/-!
Sessions: a subscribe request from its payload to its last message. The
request is extracted, parsed, checked, and its root field prepared; whatever
fails first is answered with one error event. Without a sub-protocol the
connection is closed after the last event.
-/

namespace GraphQL.Subscription

/-- How a session talks to its clients. -/
structure Configuration where
  protocol? : Option Protocol
  channelCapacity : Nat
  closeCode : UInt16
  closeReason : String

/-- No sub-protocol, room for sixteen messages, and a normal closure. -/
def Configuration.standard : Configuration := ⟨none, 16, 1000, "Normal Closure"⟩

/-- Turns query text into a document. -/
abbrev Parser := String → Except (List Diagnostic) Document

/-- What the requests of a session have in common. -/
structure Session where
  schema : Schema
  parser : Parser
  resolver : Resolver
  shaper : RootField → Json → Response
  configuration : Configuration

/-- The diagnostic for an operation that is no subscription. -/
def unsupportedDiagnostic (operation : Operation) : Diagnostic :=
  .located ("Operation type \"" ++ operation.kind.keyword ++ "\" is not supported over this connection.")
    operation.pos

namespace Session

/-- The root field of a checked document for a request. -/
def chooseField (document : Document) (request : Request) : Except (List Diagnostic) RootField := do
  let operation ← (document.select request.operationName).mapError fun error => [error.diagnostic]
  if operation.kind = .subscription then
    (rootField operation (.ofDocument document) request.variableValues).mapError fun diagnostic => [diagnostic]
  else .error [unsupportedDiagnostic operation]

/-- The root field that a payload asks for, or what the first failing stage reports. -/
def prepare (session : Session) (payload : Json) : Except (List Diagnostic) RootField := do
  let request ← (Request.ofPayload payload).mapError fun error => [error.diagnostic]
  let document ← session.parser request.query
  let errors := session.schema.check document
  if errors.isEmpty then chooseField (session.schema.normalize document) request else .error errors

/-- Closes the connection after a last event that needs it. A close that fails is no failure. -/
def conclude (configuration : Configuration) (transcript : Transcript) : Transcript :=
  match configuration.protocol?, transcript.ending with
  | none, .outcome outcome =>
    if outcome.isTerminal then
      { transcript with
        sent := transcript.sent ++
          (transcript.connection.close configuration.closeCode configuration.closeReason).1 }
    else transcript
  | _, _ => transcript

/-- Handles one request until its last message. -/
def run (session : Session) (line : Line) (id? : Option String) (payload : Json) : Transcript :=
  let dispatcher : Dispatcher := ⟨⟨session.configuration.protocol?, id?⟩, session.resolver, session.shaper⟩
  conclude session.configuration <|
    match session.prepare payload with
    | .ok field => dispatcher.dispatch line field
    | .error errors => dispatcher.reject line errors

end Session

end GraphQL.Subscription
