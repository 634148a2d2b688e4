import GraphQL.Proofs.Subscription.Trace
import GraphQL.Subscription.Channel
import Mathlib.Data.List.Basic

/-!
# Subscriptions — bounded channels

A run writes to a connection and is told at once whether a write failed. A bounded
channel keeps what was written until its receiver takes it, and lets a writer wait
while it is full (`Carries`). Main statement: a channel of the configured capacity
carries every run, whatever the capacity is; and what the receiver has taken is
the beginning of what the run has sent, in order, with the rest in the queue for as
long as the receiver stays. So a run may take the channel for a connection that
answers at once (`Channel.connection`).
-/

namespace GraphQL.Subscription

namespace Channel

/-- What a writer can tell of a channel. -/
def connection (channel : Channel) : Connection := .channel channel.gone

/-- The channel after a write, unless that has to wait. -/
def written? : Channel × Write → Option Channel
  | (_, .blocked) => none
  | (channel, _) => some channel

/-- The channel after an act of a run, unless that has to wait. -/
def act? (channel : Channel) : Act → Option Channel
  | .send text => written? (channel.send text)
  | .close code reason => written? (channel.closeGracefully code reason)
  | .leave => some channel.left
  | _ => some channel

/-- A channel carries the acts of a run while its receiver takes messages, up to another state
of it. -/
inductive Carries : Channel → List Act → List Message → Channel → Prop
  | done (channel : Channel) : Carries channel [] [] channel
  | take {channel next final : Channel} {acts : List Act} {message : Message}
      {taken : List Message} (hr : channel.receive = (next, .message message))
      (h : Carries next acts taken final) : Carries channel acts (message :: taken) final
  | act {channel next final : Channel} {act : Act} {acts : List Act} {taken : List Message}
      (ha : channel.act? act = some next) (h : Carries next acts taken final) :
      Carries channel (act :: acts) taken final

variable {channel next final : Channel} {line : Line} {act : Act} {acts : List Act}
  {message : Message} {taken : List Message}

/-! ## Steps -/

/-- A write fails, or is put behind the queue, or has to wait for room. -/
theorem push_cases (channel : Channel) (message : Message) (error : TransportError) :
    (channel.gone = true ∧ channel.push message error = (channel, .failed error)) ∨
      channel.gone = false ∧
        ((channel.queue.length < channel.capacity ∧ channel.push message error =
            ({ channel with queue := channel.queue ++ [message] }, .done)) ∨
          channel.capacity ≤ channel.queue.length ∧
            channel.push message error = (channel, .blocked)) := by
  unfold push
  cases hg : channel.gone with
  | true => exact .inl ⟨rfl, rfl⟩
  | false =>
    by_cases hl : channel.queue.length < channel.capacity
    · exact .inr ⟨rfl, .inl ⟨hl, by simp [hl]⟩⟩
    · exact .inr ⟨rfl, .inr ⟨Nat.le_of_not_lt hl, by simp [hl]⟩⟩

/-- The two ways to close leave the same channel. -/
theorem written?_closeGracefully (code : UInt16) (reason : String) :
    written? (channel.closeGracefully code reason) = written? (channel.close code reason) := by
  unfold closeGracefully
  rcases channel.close code reason with ⟨next, _ | _ | error⟩ <;> rfl

/-- An act that need not wait does to the channel what it does to the connection, and puts
behind the queue what it leaves with the peer. -/
structure Follows (channel : Channel) (line : Line) (act : Act) (next : Channel) : Prop where
  connection : next.connection = (act.on line).connection
  queue : next.gone = false → next.queue = channel.queue ++ (act.sent line).map Sent.message

theorem follows_push {error : TransportError} (hc : channel.connection = line.connection)
    (hs : (act.sent line).map Sent.message = if channel.gone then [] else [message])
    (ho : (act.on line).connection = line.connection)
    (hw : written? (channel.push message error) = some next) : channel.Follows line act next := by
  rcases channel.push_cases message error with ⟨hg, hp⟩ | ⟨hg, ⟨-, hp⟩ | ⟨-, hp⟩⟩
  · rw [hp] at hw
    cases hw
    exact ⟨hc.trans ho.symm, fun h => absurd (hg.symm.trans h) (by decide)⟩
  · rw [hp] at hw
    cases hw
    exact ⟨hc.trans ho.symm, fun _ => by rw [hs, hg]; rfl⟩
  · rw [hp] at hw
    cases hw

theorem follows_act (hc : channel.connection = line.connection)
    (ha : channel.act? act = some next) : channel.Follows line act next := by
  have gone : line.connection = .channel channel.gone := hc.symm
  cases act with
  | send text =>
    refine follows_push hc ?_ ?_ ha
    · cases hg : channel.gone <;> simp [Act.sent, gone, hg, Connection.send]
    · rw [Act.on, gone, Connection.send]
  | close code reason =>
    rw [act?, written?_closeGracefully] at ha
    refine follows_push hc ?_ rfl ha
    cases hg : channel.gone <;> simp [Act.sent, gone, hg, Connection.close]
  | leave =>
    cases ha
    exact ⟨by rw [Act.on, gone]; rfl, fun h => Bool.noConfusion h⟩
  | _ =>
    cases ha
    exact ⟨hc, fun _ => (List.append_nil _).symm⟩

/-- The queue does not hold more messages than there is room for. -/
def Bounded (channel : Channel) : Prop := channel.queue.length ≤ channel.capacity

theorem Bounded.push {error : TransportError} (h : channel.Bounded)
    (hw : written? (channel.push message error) = some next) : next.Bounded := by
  have hn : next = (channel.push message error).1 := by
    unfold written? at hw
    split at hw
    · cases hw
    · rename_i hp
      rw [hp]
      exact (Option.some.inj hw).symm
  rw [hn]
  exact length_queue_push h

theorem Bounded.of_act (h : channel.Bounded) (ha : channel.act? act = some next) :
    next.Bounded := by
  cases act with
  | send text => exact h.push ha
  | close code reason =>
    rw [act?, written?_closeGracefully] at ha
    exact h.push ha
  | leave =>
    cases ha
    exact Nat.zero_le _
  | _ =>
    cases ha
    exact h

/-- What is taken was the first in the queue. -/
theorem receive_eq_message (h : channel.receive = (next, .message message)) :
    channel.gone = false ∧ channel.queue = message :: next.queue ∧
      next.connection = channel.connection ∧ next.capacity = channel.capacity := by
  unfold receive at h
  split at h
  · cases h
  · rename_i hg
    split at h
    · cases h
    · rename_i hq
      cases h
      exact ⟨Bool.eq_false_iff.2 hg, hq, rfl, rfl⟩

theorem gone_eq (hc : channel.connection = line.connection) :
    channel.gone = line.connection.isGone := by
  rw [← hc]
  rfl

/-- A receiver that has left does not come back. -/
theorem Follows.gone (h : channel.Follows line act next)
    (hc : channel.connection = line.connection) (hg : channel.gone = true) : next.gone = true := by
  rw [gone_eq hc] at hg
  rw [gone_eq h.connection]
  cases act with
  | send text => rw [Act.on, Connection.isGone_send, hg]
  | leave => rw [Act.on, ← hc]; rfl
  | _ => exact hg

/-! ## Runs -/

namespace Carries

/-- Nothing is taken from a channel whose receiver has left. -/
theorem of_gone (h : channel.Carries acts taken final) (hc : channel.connection = line.connection)
    (hg : channel.gone = true) : taken = [] ∧ final.gone = true := by
  induction h generalizing line with
  | done => exact ⟨rfl, hg⟩
  | take hr _ _ => cases hg.symm.trans (receive_eq_message hr).1
  | act ha _ ih =>
    have follows := follows_act hc ha
    exact ih follows.connection (follows.gone hc hg)

/-- **In order, and nothing lost**: what is taken is the beginning of what was in the queue and
of what the acts leave with the peer, and the rest is in the queue while the receiver stays. -/
theorem in_order (h : channel.Carries acts taken final)
    (hc : channel.connection = line.connection) :
    taken <+: channel.queue ++ (line.sent acts).map Sent.message ∧
      (final.gone = false →
        taken ++ final.queue = channel.queue ++ (line.sent acts).map Sent.message) := by
  induction h generalizing line with
  | done channel => exact ⟨List.nil_prefix, fun _ => (List.append_nil _).symm⟩
  | take hr _ ih =>
    obtain ⟨-, hq, hn, -⟩ := receive_eq_message hr
    obtain ⟨first, rest⟩ := ih (hn.trans hc)
    rw [hq, List.cons_append]
    exact ⟨List.prefix_cons_inj _ |>.2 first, fun hg => congrArg (_ :: ·) (rest hg)⟩
  | @act channel next final act acts taken ha h ih =>
    have follows := follows_act hc ha
    obtain ⟨first, rest⟩ := ih follows.connection
    cases hg : next.gone with
    | true =>
      obtain ⟨rfl, hf⟩ := h.of_gone follows.connection hg
      exact ⟨List.nil_prefix, fun hn => Bool.noConfusion (hf.symm.trans hn)⟩
    | false =>
      rw [follows.queue hg, List.append_assoc, ← List.map_append] at first rest
      exact ⟨first, rest⟩

theorem bounded (h : channel.Carries acts taken final) (hb : channel.Bounded) : final.Bounded := by
  induction h with
  | done => exact hb
  | @take channel next _ _ _ _ hr _ ih =>
    obtain ⟨-, hq, -, hcap⟩ := receive_eq_message hr
    rw [Bounded, hq, List.length_cons] at hb
    exact ih (by rw [Bounded, hcap]; exact Nat.le_of_succ_le hb)
  | act ha _ ih => exact ih (hb.of_act ha)

/-- A receiver that reads on empties the queue before the next act. -/
theorem of_emptied (hg : channel.gone = false)
    (h : Carries { channel with queue := [] } acts taken final) :
    channel.Carries acts (channel.queue ++ taken) final := by
  obtain ⟨capacity, queue, gone, tokens⟩ := channel
  induction queue with
  | nil => exact h
  | cons message queue ih =>
    have received : receive ⟨capacity, message :: queue, gone, tokens⟩ =
        (⟨capacity, queue, gone, tokens⟩, .message message) := by
      cases hg
      rfl
    exact .take received (ih hg h)

end Carries

/-- An act does not wait if nothing is in the queue, or nobody is there to take it. -/
theorem exists_act (hcap : 0 < channel.capacity) (h : channel.gone = true ∨ channel.queue = [])
    (act : Act) : ∃ next, channel.act? act = some next ∧ next.capacity = channel.capacity := by
  have pushed : ∀ message error, ∃ next, written? (channel.push message error) = some next ∧
      next.capacity = channel.capacity := by
    intro message error
    rcases channel.push_cases message error with ⟨-, hp⟩ | ⟨hg, ⟨-, hp⟩ | ⟨hfull, -⟩⟩
    · exact ⟨channel, by rw [hp]; rfl, rfl⟩
    · exact ⟨{ channel with queue := channel.queue ++ [message] }, by rw [hp]; rfl, rfl⟩
    · rcases h with h | h
      · cases h.symm.trans hg
      · rw [h] at hfull
        exact absurd hcap (Nat.not_lt.2 hfull)
  cases act with
  | send text => exact pushed _ _
  | close code reason =>
    rw [act?, written?_closeGracefully]
    exact pushed _ _
  | leave => exact ⟨_, rfl, rfl⟩
  | _ => exact ⟨_, rfl, rfl⟩

/-- **No act waits for ever**: a receiver that reads on makes room for it. -/
theorem exists_carries (hcap : 0 < channel.capacity) (acts : List Act) :
    ∃ taken final, channel.Carries acts taken final ∧ (final.gone = false → final.queue = []) := by
  induction acts generalizing channel with
  | nil =>
    cases hg : channel.gone with
    | true => exact ⟨[], channel, .done channel, fun h => Bool.noConfusion (hg.symm.trans h)⟩
    | false => exact ⟨_, _, Carries.of_emptied hg (.done _), fun _ => rfl⟩
  | cons act acts ih =>
    cases hg : channel.gone with
    | true =>
      obtain ⟨next, ha, hn⟩ := exists_act hcap (.inl hg) act
      obtain ⟨taken, final, h, hf⟩ := ih (hn ▸ hcap)
      exact ⟨taken, final, .act ha h, hf⟩
    | false =>
      have room := @exists_act { channel with queue := [] } hcap (.inr rfl)
      obtain ⟨next, ha, hn⟩ := room act
      obtain ⟨taken, final, h, hf⟩ := ih (hn ▸ hcap)
      exact ⟨_, final, Carries.of_emptied hg (.act ha h), hf⟩

theorem capacity_ofCapacity_pos (capacity : Nat) : 0 < (ofCapacity capacity).capacity :=
  Nat.lt_of_lt_of_le Nat.one_pos (Nat.le_max_right capacity 1)

end Channel

/-- **What a channel delivers**: a channel of the configured capacity carries the run of every
request, to its end if the receiver reads on. What the receiver takes is the beginning of what
the run says it has sent, and all of it if the receiver stays and has read everything; and the
queue never holds more than its capacity. -/
theorem Session.channel_delivers (session : Session) (cancelled : Bool) (id? : Option String)
    (payload : Json) :
    let line : Line := ⟨.channel false, cancelled⟩
    let channel := Channel.ofCapacity session.configuration.channelCapacity
    let acts := (session.trace line id? payload).acts
    let messages := (session.run line id? payload).sent.map Sent.message
    (∃ taken final, channel.Carries acts taken final ∧
        (final.gone = false → final.queue = [])) ∧
      ∀ taken final, channel.Carries acts taken final →
        final.Bounded ∧ taken <+: messages ∧
          (final.gone = false → taken ++ final.queue = messages) := by
  intro line channel acts messages
  refine ⟨Channel.exists_carries (Channel.capacity_ofCapacity_pos _) acts, ?_⟩
  intro taken final h
  have hb : channel.Bounded := Nat.zero_le _
  have hc : channel.connection = line.connection := rfl
  have hm : messages = (line.sent acts).map Sent.message := by
    show (session.run line id? payload).sent.map _ = _
    rw [← session.replay_trace]
    rfl
  rw [hm]
  exact ⟨h.bounded hb, h.in_order hc⟩

end GraphQL.Subscription
