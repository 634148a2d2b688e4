import GraphQL.Diagnostic
import GraphQL.Json.Printer
import GraphQL.Json.Record
import GraphQL.Text.Blank
import GraphQL.Text.Split

/-!
Frames: the messages that carry the events of a subscription. Without a
sub-protocol a frame is the bare payload, and completion has no frame. With
one, a frame is an envelope with a type, the id of the operation and the
payload. The older protocol sends a bare list of errors; the newer one sends
results and errors alike as `data`.
-/

namespace GraphQL.Subscription

/-- A negotiated sub-protocol. -/
inductive Protocol where
  | ws
  | transportWs
deriving DecidableEq

/-- The types of frame. -/
inductive FrameKind where
  | next
  | error
  | complete
  | data
deriving DecidableEq

/-- The type as an envelope shows it. -/
def FrameKind.name : FrameKind → String
  | .next => "next"
  | .error => "error"
  | .complete => "complete"
  | .data => "data"

namespace Protocol

/-- The name under which a protocol is negotiated. -/
def name : Protocol → String
  | .ws => "graphql-ws"
  | .transportWs => "graphql-transport-ws"

/-- The protocol with a name. -/
def ofName? (name : List Char) : Option Protocol :=
  [Protocol.ws, .transportWs].find? fun protocol => protocol.name.toList == name

/-- The first known protocol in a list of names, blanks around them left out. -/
def ofHeader? (header : String) : Option Protocol :=
  (Text.split ',' header.toList).findSome? fun part => ofName? (Text.trim part)

/-- The type under which a protocol sends an event. -/
def wireKind : Protocol → FrameKind → FrameKind
  | .transportWs, .next => .data
  | .transportWs, .error => .data
  | _, kind => kind

end Protocol

/-- The result of one event: data, errors, both or neither. -/
structure Response where
  data : Option Json
  errors : Option (List Json)

namespace Response

/-- There is nothing to publish: no data, and no errors. -/
def isEmpty (response : Response) : Bool :=
  response.data.isNone && (response.errors.getD []).isEmpty

/-- The form sent to clients, with only the members that are there. -/
def toJson (response : Response) : Json :=
  .object ((response.data.map fun data => ("data", data)).toList ++
    (response.errors.map fun errors => ("errors", .array errors)).toList)

/-- The response that the members `data` and `errors` of a value make. -/
def ofMembers (value : Json) : Response :=
  let members := value.object?.getD []
  ⟨Record.get? "data" members, (Record.get? "errors" members).bind Json.array?⟩

/-- The response with a value under a key. -/
def keyed (key : String) (value : Json) : Response := ⟨some (.object [(key, value)]), none⟩

end Response

/-- An event of a subscription. -/
inductive Event where
  | next (response : Response)
  | error (errors : List Diagnostic)
  | complete

namespace Event

/-- An error with a message and nothing else. -/
def ofMessage (message : String) : Event := .error [.ofMessage message]

/-- The type of frame that carries an event. -/
def kind : Event → FrameKind
  | .next _ => .next
  | .error _ => .error
  | .complete => .complete

end Event

/-- How the events of one subscription are put into frames. -/
structure Framing where
  protocol? : Option Protocol
  /-- The id of the operation, shown in envelopes. -/
  id? : Option String

namespace Framing

/-- The payload of an event, if it has one. -/
def payload? (protocol? : Option Protocol) : Event → Option Json
  | .next response => some response.toJson
  | .error errors =>
    let list := Diagnostic.listToJson errors
    some (if protocol? = some .ws then list else .object [("errors", list)])
  | .complete => none

/-- The members of an envelope. -/
def envelope (protocol : Protocol) (id? : Option String) (event : Event) : List (String × Json) :=
  ("type", .string (protocol.wireKind event.kind).name) ::
    ((id?.map fun id => ("id", .string id)).toList ++
      ((payload? (some protocol) event).map fun payload => ("payload", payload)).toList)

/-- The frame of an event; completion without a sub-protocol has none. -/
def frame? (framing : Framing) (event : Event) : Option Json :=
  match framing.protocol? with
  | none => payload? none event
  | some protocol => some (.object (envelope protocol framing.id? event))

/-- The text of the frame of an event. -/
def text? (framing : Framing) (event : Event) : Option String :=
  (framing.frame? event).map Json.text

end Framing

end GraphQL.Subscription
