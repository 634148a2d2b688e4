import GraphQL.Subscription.Connection

/-!
Bounded channels. Messages wait in a queue until the receiver takes them; a
write to a full queue has to wait, and one whose receiver has left fails.
Cancellation tokens can be tied to the receiver: once it has left, the next
time the watchers run every tied token is cancelled.
-/

namespace GraphQL.Subscription

/-- A bounded channel and the tokens tied to its receiver. -/
structure Channel where
  capacity : Nat
  queue : List Message
  gone : Bool
  /-- For each token whether it has been cancelled. -/
  tokens : List Bool

/-- The result of a write that may have to wait. -/
inductive Write where
  | done
  | blocked
  | failed (error : TransportError)
deriving DecidableEq

/-- What the receiver finds without waiting. -/
inductive Receipt where
  | message (message : Message)
  | nothing
  | gone
deriving DecidableEq

namespace Channel

/-- An empty channel; it has room for at least one message. -/
def ofCapacity (capacity : Nat) : Channel := ⟨max capacity 1, [], false, []⟩

/-- Writes a message unless the receiver has left, which gives the error, or the queue is full. -/
def push (channel : Channel) (message : Message) (error : TransportError) : Channel × Write :=
  if channel.gone then (channel, .failed error)
  else if channel.queue.length < channel.capacity then
    ({ channel with queue := channel.queue ++ [message] }, .done)
  else (channel, .blocked)

/-- Sends a text. -/
def send (channel : Channel) (text : String) : Channel × Write :=
  channel.push (.text text) .closed

/-- Closes the connection. -/
def close (channel : Channel) (code : UInt16) (reason : String) : Channel × Write :=
  channel.push (.close code reason) (.close "channel closed")

/-- Closes the connection and swallows a failure. -/
def closeGracefully (channel : Channel) (code : UInt16) (reason : String) : Channel × Write :=
  match channel.close code reason with
  | (channel, .failed _) => (channel, .done)
  | result => result

/-- Takes the oldest message without waiting. -/
def receive (channel : Channel) : Channel × Receipt :=
  if channel.gone then (channel, .gone)
  else match channel.queue with
    | [] => (channel, .nothing)
    | message :: queue => ({ channel with queue := queue }, .message message)

/-- The channel after its receiver has left. -/
def left (channel : Channel) : Channel := { channel with gone := true, queue := [] }

/-- Ties one more token to the receiver. -/
def watch (channel : Channel) : Channel := { channel with tokens := channel.tokens ++ [false] }

/-- Cancels a token, if there is one with that number. -/
def cancel? (channel : Channel) (token : Nat) : Option Channel :=
  if token < channel.tokens.length then some { channel with tokens := channel.tokens.set token true } else none

/-- Lets the watchers run. -/
def settle (channel : Channel) : Channel :=
  { channel with tokens := channel.tokens.map fun cancelled => cancelled || channel.gone }

/-- A channel never holds more than its capacity. -/
theorem length_queue_push {channel : Channel} {message : Message} {error : TransportError}
    (h : channel.queue.length ≤ channel.capacity) :
    (channel.push message error).1.queue.length ≤ (channel.push message error).1.capacity := by
  unfold push
  split
  · exact h
  · split
    · simp
      omega
    · exact h

end Channel

end GraphQL.Subscription
