/-!
Connections as the sender sees them. A channel loses its peer once and for
all; a recorder keeps its peer, but a chosen send and every close of it can be
made to fail.
-/

namespace GraphQL.Subscription

/-- What is written to a connection. -/
inductive Message where
  | text (text : String)
  | close (code : UInt16) (reason : String)
deriving DecidableEq

/-- Why a write failed. -/
inductive TransportError where
  | closed
  | send (reason : String)
  | close (reason : String)
deriving DecidableEq

/-- The text of a transport error. -/
def TransportError.message : TransportError → String
  | .closed => "connection closed"
  | .send reason => "send failed: " ++ reason
  | .close reason => "close failed: " ++ reason

/-- A message that has reached the peer; a recorder also takes down a close that failed. -/
structure Sent where
  message : Message
  failed : Bool
deriving DecidableEq

/-- A connection, as far as its sender can tell. -/
inductive Connection where
  | channel (gone : Bool)
  /-- Fails the send with the given number, counted from one, and perhaps every close. -/
  | recorder (failSendAt : Option Nat) (failClose : Bool) (sends : Nat)
deriving DecidableEq

namespace Connection

/-- The peer has gone away. -/
def isGone : Connection → Bool
  | .channel gone => gone
  | .recorder _ _ _ => false

/-- The connection after its peer has gone away; a recorder's peer stays. -/
def disconnected : Connection → Connection
  | .channel _ => .channel true
  | connection => connection

/-- One attempt to send a text: the connection afterwards, and why it failed if it did. -/
def send : Connection → Connection × Option TransportError
  | .channel gone => (.channel gone, if gone then some .closed else none)
  | .recorder failSendAt failClose sends =>
    (.recorder failSendAt failClose (sends + 1),
      if failSendAt = some (sends + 1) then some (.send s!"frame {sends + 1}") else none)

/-- One attempt to close: what it leaves with the peer, and why it failed if it did. -/
def close (connection : Connection) (code : UInt16) (reason : String) : List Sent × Option TransportError :=
  match connection with
  | .channel true => ([], some (.close "channel closed"))
  | .channel false => ([⟨.close code reason, false⟩], none)
  | .recorder _ failClose _ =>
    ([⟨.close code reason, failClose⟩], if failClose then some (.close "broken") else none)

/-- Sending changes nothing about the peer. -/
@[simp] theorem isGone_send (connection : Connection) : connection.send.1.isGone = connection.isGone := by
  cases connection <;> rfl

end Connection

end GraphQL.Subscription
