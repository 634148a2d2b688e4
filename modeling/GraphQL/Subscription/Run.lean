import GraphQL.Subscription.Connection
import GraphQL.Subscription.Frame
import GraphQL.Subscription.Resolver

/-!
Running a subscription: the resolver is asked for a feed, each value pulled is
shaped into a response and sent, and an error or the end of the feed is sent
as the last event. Before every wait the run looks whether it was cancelled or
the peer has gone; a result that is there in the same moment still counts. The
peer may also go away between two waits, behind what was sent. A run is a
function to its transcript: what was sent, how often the feed was pulled, and
how it ended.
-/

namespace GraphQL.Subscription

/-- How a subscription ended. -/
inductive Outcome where
  | completed
  | errored
  | cancelled
  | setupFailed
  | rejected
deriving DecidableEq

/-- A last event was sent. -/
def Outcome.isTerminal : Outcome → Bool
  | .cancelled => false
  | _ => true

/-- How a run ended: with an outcome, with a failed write, or not at all. -/
inductive Ending where
  | outcome (outcome : Outcome)
  | failed (error : TransportError)
  | waiting
deriving DecidableEq

/-- What a run did, and what it left behind. -/
structure Transcript where
  sent : List Sent
  pulls : Nat
  /-- The root fields that the resolver was asked for. -/
  asked : List RootField
  /-- Those of them for which it had a source of values. -/
  subscribed : List RootField
  ending : Ending
  connection : Connection
  cancelled : Bool

/-- The transcript with some messages sent before it. -/
def Transcript.after (transcript : Transcript) (sent : List Sent) : Transcript :=
  { transcript with sent := sent ++ transcript.sent }

/-- The transcript with one pull before it. -/
def Transcript.afterPull (transcript : Transcript) : Transcript :=
  { transcript with pulls := transcript.pulls + 1 }

/-- What a run needs to know all the time. -/
structure Dispatcher where
  framing : Framing
  resolver : Resolver
  /-- Makes a response of a value of the root field. -/
  shaper : RootField → Json → Response

/-- The state of a run between two waits. -/
structure Line where
  connection : Connection
  cancelled : Bool

namespace Line

/-- The run has to stop here. -/
def isDown (line : Line) : Bool := line.cancelled || line.connection.isGone

/-- The state after what else happens in a moment. -/
def during {α : Type} (line : Line) (moment : Moment α) : Line :=
  ⟨if moment.disconnects then line.connection.disconnected else line.connection,
    line.cancelled || moment.cancels⟩

/-- The state behind a moment, before the next wait. -/
def behind {α : Type} (line : Line) (moment : Moment α) : Line :=
  { line with
    connection := if moment.leaves then line.connection.disconnected else line.connection }

/-- The transcript of a run that does nothing more. -/
def stop (line : Line) (ending : Ending) : Transcript :=
  ⟨[], 0, [], [], ending, line.connection, line.cancelled⟩

/-- The transcript of a wait whose result does not come. -/
def wait (line : Line) : Transcript :=
  line.stop (if line.isDown then .outcome .cancelled else .waiting)

end Line

namespace Dispatcher

/-- Sends an event, if it has a frame, and goes on unless that fails. -/
def emit (dispatcher : Dispatcher) (line : Line) (event : Event) (next : Line → Transcript) : Transcript :=
  match dispatcher.framing.text? event with
  | none => next line
  | some text =>
    match line.connection.send with
    | (connection, none) => (next { line with connection }).after [⟨.text text, false⟩]
    | (connection, some error) => { line with connection }.stop (.failed error)

/-- Sends the last event and ends with an outcome. -/
def finish (dispatcher : Dispatcher) (line : Line) (event : Event) (outcome : Outcome) : Transcript :=
  dispatcher.emit line event fun line => line.stop (.outcome outcome)

/-- Pulls values until something stops the run. A value with an empty response is skipped. -/
def pull (dispatcher : Dispatcher) (field : RootField) (line : Line) : List (Moment Pull) → Transcript
  | [] =>
    if line.isDown then line.stop (.outcome .cancelled)
    else (dispatcher.finish line .complete .completed).afterPull
  | moment :: moments =>
    if line.isDown then line.stop (.outcome .cancelled)
    else
      let line := line.during moment
      Transcript.afterPull <|
        match moment.result with
        | none => line.wait
        | some .ended => dispatcher.finish line .complete .completed
        | some (.failed error) => dispatcher.finish line (.ofMessage error.text) .errored
        | some (.value value) =>
          let response := dispatcher.shaper field value
          let next (line : Line) := dispatcher.pull field (line.behind moment) moments
          if response.isEmpty then next line else dispatcher.emit line (.next response) next

/-- Runs a subscription on a feed. -/
def follow (dispatcher : Dispatcher) (field : RootField) (line : Line) (feed : Feed) : Transcript :=
  let line := line.during feed.setup
  match feed.setup.result with
  | none => line.wait
  | some (.error error) => dispatcher.finish line (.ofMessage error.text) .setupFailed
  | some (.ok ()) => dispatcher.pull field (line.behind feed.setup) feed.pulls

/-- Runs a subscription to its end. -/
def dispatch (dispatcher : Dispatcher) (line : Line) (field : RootField) : Transcript :=
  if line.isDown then line.stop (.outcome .cancelled)
  else
    { dispatcher.follow field line (dispatcher.resolver.feed field) with
      asked := [field]
      subscribed := if dispatcher.resolver.knows field then [field] else [] }

/-- Answers a request that cannot be run with one error event. -/
def reject (dispatcher : Dispatcher) (line : Line) (errors : List Diagnostic) : Transcript :=
  dispatcher.finish line (.error errors) .rejected

end Dispatcher

end GraphQL.Subscription
