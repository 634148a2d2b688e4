import GraphQL.Proofs.Subscription.Conversation

/-!
# Subscriptions — runs act by act

A transcript says what is left of a run when it is over. Here a run is the list
of its calls and of what happens to it, in order (`Trace`), so that "before" and
"afterwards" can be said. The traces follow the functions of a run, and played
on the line that the run starts on a trace gives the transcript of the run
(`replay_dispatchTrace`, `replay_trace`).

Whether a send fails is not written down in a trace: it is what the connection
says on the line that the acts before have left (`Line.past`).
-/

namespace GraphQL.Subscription

/-! ## Acts -/

/-- A call of a run, or something that happens to it. -/
inductive Act where
  /-- The resolver is asked for a root field; it may have a source of values for it. -/
  | subscribe (field : RootField) (known : Bool)
  | pull
  /-- The peer goes away. -/
  | leave
  /-- The run is cancelled. -/
  | cancel
  | send (text : String)
  | close (code : UInt16) (reason : String)

namespace Act

/-- The act is a pull of the feed. -/
def isPull : Act → Bool
  | .pull => true
  | _ => false

/-- The act is a send, whether it fails or not. -/
def isSend : Act → Bool
  | .send _ => true
  | _ => false

/-- The root field that is asked for. -/
def field? : Act → Option RootField
  | .subscribe field _ => some field
  | _ => none

/-- The root field that values are there for. -/
def known? : Act → Option RootField
  | .subscribe field true => some field
  | _ => none

/-- The line after the act. -/
def on (line : Line) : Act → Line
  | .leave => { line with connection := line.connection.disconnected }
  | .cancel => { line with cancelled := true }
  | .send _ => { line with connection := line.connection.send.1 }
  | _ => line

/-- What the act leaves with the peer. -/
def sent (line : Line) : Act → List Sent
  | .send text => if line.connection.send.2.isNone then [⟨.text text, false⟩] else []
  | .close code reason => (line.connection.close code reason).1
  | _ => []

end Act

namespace Line

/-- The line after some acts. -/
def past (line : Line) (acts : List Act) : Line := acts.foldl Act.on line

/-- What some acts leave with the peer. -/
def sent (line : Line) : List Act → List Sent
  | [] => []
  | act :: acts => act.sent line ++ (act.on line).sent acts

@[simp] theorem past_nil (line : Line) : line.past [] = line := rfl

@[simp] theorem past_cons (line : Line) (act : Act) (acts : List Act) :
    line.past (act :: acts) = (act.on line).past acts := rfl

@[simp] theorem past_append (line : Line) (first second : List Act) :
    line.past (first ++ second) = (line.past first).past second :=
  List.foldl_append

theorem sent_append (line : Line) (first second : List Act) :
    line.sent (first ++ second) = line.sent first ++ (line.past first).sent second := by
  induction first generalizing line with
  | nil => rfl
  | cons act acts ih => simp [sent, ih]

end Line

/-- An act of a list that was put together stands in the first part or in the second. -/
theorem split_cases {α : Type} {act : α} {first second before after : List α}
    (h : first ++ second = before ++ act :: after) :
    (∃ rest, first = before ++ act :: rest ∧ after = rest ++ second) ∨
      ∃ rest, before = first ++ rest ∧ second = rest ++ act :: after := by
  rcases List.append_eq_append_iff.1 h with ⟨rest, hb, hs⟩ | ⟨rest, hf, hs⟩
  · exact .inr ⟨rest, hb, hs⟩
  · cases rest with
    | nil => exact .inr ⟨[], by simpa using hf.symm, by simpa using hs.symm⟩
    | cons other rest =>
      obtain ⟨rfl, ha⟩ := List.cons.inj hs
      exact .inl ⟨rest, hf, ha⟩

/-- What happens in a moment. Neither is a call of the run. -/
def Moment.acts {α : Type} (moment : Moment α) : List Act :=
  (if moment.disconnects then [.leave] else []) ++ if moment.cancels then [.cancel] else []

/-- What happens behind a moment. -/
def Moment.actsBehind {α : Type} (moment : Moment α) : List Act :=
  if moment.leaves then [.leave] else []

section Moment

variable {α : Type} (line : Line) (moment : Moment α)

@[simp] theorem Line.past_acts : line.past moment.acts = line.during moment := by
  unfold Moment.acts Line.during
  by_cases hd : moment.disconnects = true <;> by_cases hc : moment.cancels = true <;>
    simp [hd, hc, Act.on]

@[simp] theorem Line.sent_acts : line.sent moment.acts = [] := by
  unfold Moment.acts
  by_cases hd : moment.disconnects = true <;> by_cases hc : moment.cancels = true <;>
    simp [hd, hc, Line.sent, Act.sent]

theorem Moment.mem_acts {act : Act} (h : act ∈ moment.acts) :
    act = .leave ∨ act = .cancel ∧ moment.cancels = true := by
  unfold Moment.acts at h
  by_cases hd : moment.disconnects = true <;> by_cases hc : moment.cancels = true <;>
    simp_all

@[simp] theorem Moment.countP_isPull_acts : moment.acts.countP Act.isPull = 0 := by
  rw [List.countP_eq_zero]
  intro act h
  obtain rfl | ⟨rfl, -⟩ := moment.mem_acts h <;> simp [Act.isPull]

@[simp] theorem Moment.filterMap_field?_acts : moment.acts.filterMap Act.field? = [] := by
  rw [List.filterMap_eq_nil_iff]
  intro act h
  obtain rfl | ⟨rfl, -⟩ := moment.mem_acts h <;> rfl

@[simp] theorem Moment.filterMap_known?_acts : moment.acts.filterMap Act.known? = [] := by
  rw [List.filterMap_eq_nil_iff]
  intro act h
  obtain rfl | ⟨rfl, -⟩ := moment.mem_acts h <;> rfl

/-- Behind a moment nothing happens, or the peer goes away. -/
theorem Moment.actsBehind_cases :
    (moment.leaves = false ∧ moment.actsBehind = []) ∨
      moment.leaves = true ∧ moment.actsBehind = [.leave] := by
  unfold actsBehind
  cases moment.leaves with
  | false => exact .inl ⟨rfl, rfl⟩
  | true => exact .inr ⟨rfl, rfl⟩

@[simp] theorem Line.past_actsBehind : line.past moment.actsBehind = line.behind moment := by
  rcases moment.actsBehind_cases with ⟨hl, ha⟩ | ⟨hl, ha⟩ <;> simp [ha, Line.behind, hl, Act.on]

theorem Moment.countP_isPull_actsBehind : moment.actsBehind.countP Act.isPull = 0 := by
  rcases moment.actsBehind_cases with ⟨-, ha⟩ | ⟨-, ha⟩ <;> rw [ha] <;> rfl

end Moment

/-! ## Traces -/

/-- A run as it goes, and how it ends. -/
structure Trace where
  acts : List Act
  ending : Ending

namespace Trace

/-- The trace with some acts before it. -/
def after (trace : Trace) (acts : List Act) : Trace := { trace with acts := acts ++ trace.acts }

/-- What is left of a trace that starts on a line. -/
def replay (trace : Trace) (line : Line) : Transcript where
  sent := line.sent trace.acts
  pulls := trace.acts.countP Act.isPull
  asked := trace.acts.filterMap Act.field?
  subscribed := trace.acts.filterMap Act.known?
  ending := trace.ending
  connection := (line.past trace.acts).connection
  cancelled := (line.past trace.acts).cancelled

@[simp] theorem acts_after (trace : Trace) (acts : List Act) :
    (trace.after acts).acts = acts ++ trace.acts := rfl

@[simp] theorem ending_after (trace : Trace) (acts : List Act) :
    (trace.after acts).ending = trace.ending := rfl

/-- Acts leave what they leave, and then the rest of the trace is played. -/
theorem replay_after (trace : Trace) (line : Line) (acts : List Act) :
    (trace.after acts).replay line =
      { trace.replay (line.past acts) with
        sent := line.sent acts ++ (line.past acts).sent trace.acts
        pulls := acts.countP Act.isPull + trace.acts.countP Act.isPull
        asked := acts.filterMap Act.field? ++ trace.acts.filterMap Act.field?
        subscribed := acts.filterMap Act.known? ++ trace.acts.filterMap Act.known? } := by
  simp [replay, Line.sent_append]

theorem replay_after_send (trace : Trace) {line : Line} (text : String)
    (h : line.connection.send.2 = none) :
    (trace.after [.send text]).replay line =
      (trace.replay { line with connection := line.connection.send.1 }).after
        [⟨.text text, false⟩] := by
  rw [replay_after]
  simp [replay, Transcript.after, Line.sent, Act.sent, Act.on, Act.isPull, Act.field?, Act.known?,
    h]

theorem replay_after_pull (trace : Trace) (line : Line) :
    (trace.after [.pull]).replay line = (trace.replay line).afterPull := by
  rw [replay_after]
  simp [replay, Transcript.afterPull, Line.sent, Act.sent, Act.on, List.countP_cons, Act.isPull,
    Act.field?, Act.known?, Nat.add_comm]

theorem replay_after_subscribe (trace : Trace) (line : Line) (field : RootField) (known : Bool) :
    (trace.after [.subscribe field known]).replay line =
      { trace.replay line with
        asked := field :: (trace.replay line).asked
        subscribed := (if known then [field] else []) ++ (trace.replay line).subscribed } := by
  rw [replay_after]
  cases known <;> simp [replay, Line.sent, Act.sent, Act.on, Act.isPull, Act.field?, Act.known?]

theorem replay_after_moment {α : Type} (trace : Trace) (line : Line) (moment : Moment α) :
    (trace.after moment.acts).replay line = trace.replay (line.during moment) := by
  rw [replay_after]
  simp [replay]

theorem replay_after_behind {α : Type} (trace : Trace) (line : Line) (moment : Moment α) :
    (trace.after moment.actsBehind).replay line = trace.replay (line.behind moment) := by
  rw [replay_after, Line.past_actsBehind]
  rcases moment.actsBehind_cases with ⟨-, ha⟩ | ⟨-, ha⟩ <;>
    simp [replay, ha, Line.sent, Act.sent, Act.isPull, Act.field?, Act.known?]

end Trace

/-! ## The traces of runs -/

/-- What a run does about a result: the event that it sends, and the outcome that it
ends with, if it does. -/
structure Reaction where
  event? : Option Event
  outcome? : Option Outcome

namespace Reaction

/-- The run waits on, or goes on to the next pull. -/
def nothing : Reaction := ⟨none, none⟩

/-- The sends that belong to a reaction: one, if its event has a frame. -/
def calls (reaction : Reaction) (framing : Framing) : List Act :=
  (reaction.event?.bind framing.text?).toList.map .send

/-- Ends with the outcome of a reaction, or goes on. -/
def goOn (reaction : Reaction) (next : Line → Trace) (line : Line) : Trace :=
  match reaction.outcome? with
  | some outcome => ⟨[], .outcome outcome⟩
  | none => next line

@[simp] theorem goOn_none (event? : Option Event) (next : Line → Trace) :
    goOn ⟨event?, none⟩ next = next := rfl

end Reaction

/-- The trace of a wait whose result does not come. -/
def Line.waitTrace (line : Line) : Trace :=
  ⟨[], if line.isDown then .outcome .cancelled else .waiting⟩

/-- Goes on behind a moment, unless its result does not come. -/
def Moment.onward {α : Type} (moment : Moment α) (next : Line → Trace) (line : Line) : Trace :=
  if moment.result.isNone then line.waitTrace
  else (next (line.behind moment)).after moment.actsBehind

theorem Moment.replay_onward_none {α : Type} {moment : Moment α} (hr : moment.result = none)
    (next : Line → Trace) (line : Line) : (moment.onward next line).replay line = line.wait := by
  rw [onward, hr]
  rfl

theorem Moment.replay_onward_some {α : Type} {moment : Moment α} {result : α}
    (hr : moment.result = some result) (next : Line → Trace) (line : Line) :
    (moment.onward next line).replay line =
      (next (line.behind moment)).replay (line.behind moment) := by
  rw [onward, hr]
  exact Trace.replay_after_behind _ line moment

namespace Dispatcher

/-- What a run does about the result of the setup. -/
def onSetup : Option (Except ResolverError Unit) → Reaction
  | some (.error error) => ⟨some (.ofMessage error.text), some .setupFailed⟩
  | _ => .nothing

/-- What a run does about what a pull finds. -/
def onPull (dispatcher : Dispatcher) (field : RootField) : Option Pull → Reaction
  | none => .nothing
  | some .ended => ⟨some .complete, some .completed⟩
  | some (.failed error) => ⟨some (.ofMessage error.text), some .errored⟩
  | some (.value value) =>
    if (dispatcher.shaper field value).isEmpty then .nothing
    else ⟨some (.next (dispatcher.shaper field value)), none⟩

/-- Sends an event, if it has a frame, and goes on unless that fails. -/
def emitTrace (dispatcher : Dispatcher) (line : Line) (event : Event) (next : Line → Trace) :
    Trace :=
  match dispatcher.framing.text? event with
  | none => next line
  | some text =>
    match line.connection.send with
    | (connection, none) => (next { line with connection }).after [.send text]
    | (_, some error) => ⟨[.send text], .failed error⟩

/-- Sends the event of a reaction, and ends with its outcome or goes on. -/
def reactTrace (dispatcher : Dispatcher) (line : Line) (reaction : Reaction)
    (next : Line → Trace) : Trace :=
  match reaction.event? with
  | some event => dispatcher.emitTrace line event (reaction.goOn next)
  | none => reaction.goOn next line

/-- Waits in a moment, does what is to be done about its result, and goes on behind it. -/
def momentTrace {α : Type} (dispatcher : Dispatcher) (line : Line) (moment : Moment α)
    (reaction : Reaction) (next : Line → Trace) : Trace :=
  (dispatcher.reactTrace (line.during moment) reaction (moment.onward next)).after moment.acts

/-- The trace of a run that pulls values. -/
def pullTrace (dispatcher : Dispatcher) (field : RootField) (line : Line) :
    List (Moment Pull) → Trace
  | [] =>
    if line.isDown then ⟨[], .outcome .cancelled⟩
    else (dispatcher.reactTrace line (dispatcher.onPull field (some .ended))
      Line.waitTrace).after [.pull]
  | moment :: moments =>
    if line.isDown then ⟨[], .outcome .cancelled⟩
    else (dispatcher.momentTrace line moment (dispatcher.onPull field moment.result) fun line =>
      dispatcher.pullTrace field line moments).after [.pull]

/-- The trace of a run on a feed. -/
def followTrace (dispatcher : Dispatcher) (field : RootField) (line : Line) (feed : Feed) : Trace :=
  dispatcher.momentTrace line feed.setup (onSetup feed.setup.result) fun line =>
    dispatcher.pullTrace field line feed.pulls

/-- The trace of a run that answers with a last event. -/
def finishTrace (dispatcher : Dispatcher) (line : Line) (event : Event) (outcome : Outcome) :
    Trace :=
  dispatcher.reactTrace line ⟨some event, some outcome⟩ Line.waitTrace

/-- The trace of a whole run. -/
def dispatchTrace (dispatcher : Dispatcher) (line : Line) (field : RootField) : Trace :=
  if line.isDown then ⟨[], .outcome .cancelled⟩
  else (dispatcher.followTrace field line (dispatcher.resolver.feed field)).after
    [.subscribe field (dispatcher.resolver.knows field)]

variable (dispatcher : Dispatcher) (field : RootField)

theorem replay_emitTrace {next : Line → Trace} {next' : Line → Transcript} (line : Line)
    (event : Event) (h : ∀ line, (next line).replay line = next' line) :
    (dispatcher.emitTrace line event next).replay line = dispatcher.emit line event next' := by
  unfold emitTrace emit
  cases dispatcher.framing.text? event with
  | none => exact h line
  | some text =>
    rcases hs : line.connection.send with ⟨connection, _ | error⟩
    · show ((next { line with connection }).after [.send text]).replay line = _
      rw [Trace.replay_after_send _ text (congrArg Prod.snd hs), hs, h]
    · simp [Trace.replay, Line.stop, Line.sent, Act.sent, Act.on, Act.isPull, Act.field?,
        Act.known?, hs]

/-- The frame of a reaction is sent, if there is one, and the run goes on; or the send
fails, and the run does nothing more. -/
theorem reactTrace_cases (line : Line) (reaction : Reaction) (next : Line → Trace) :
    (reaction.calls dispatcher.framing = [] ∨ line.connection.send.2 = none) ∧
        dispatcher.reactTrace line reaction next =
          (reaction.goOn next (line.past (reaction.calls dispatcher.framing))).after
            (reaction.calls dispatcher.framing) ∨
      ∃ text error, reaction.calls dispatcher.framing = [.send text] ∧
        line.connection.send.2 = some error ∧
        dispatcher.reactTrace line reaction next = ⟨[.send text], .failed error⟩ := by
  unfold reactTrace Reaction.calls
  cases reaction.event? with
  | none => exact .inl ⟨.inl rfl, rfl⟩
  | some event =>
    show _ ∧ dispatcher.emitTrace line event _ = _ ∨ ∃ text error, _ ∧ _ ∧
      dispatcher.emitTrace line event _ = _
    unfold emitTrace
    cases ht : dispatcher.framing.text? event with
    | none => exact .inl ⟨.inl (by simp [ht]), by simp [ht, Trace.after]⟩
    | some text =>
      rcases hs : line.connection.send with ⟨connection, _ | error⟩
      · exact .inl ⟨.inr rfl, by simp [ht, hs, Act.on]⟩
      · exact .inr ⟨text, error, by simp [ht], rfl, rfl⟩

theorem replay_finishTrace (line : Line) (event : Event) (outcome : Outcome) :
    (dispatcher.finishTrace line event outcome).replay line =
      dispatcher.finish line event outcome :=
  dispatcher.replay_emitTrace line event fun _ => rfl

theorem replay_pullTrace (line : Line) (moments : List (Moment Pull)) :
    (dispatcher.pullTrace field line moments).replay line =
      dispatcher.pull field line moments := by
  induction moments generalizing line with
  | nil =>
    by_cases hd : line.isDown = true
    · rw [pullTrace, pull, if_pos hd, if_pos hd]
      rfl
    · rw [pullTrace, pull, if_neg hd, if_neg hd, Trace.replay_after_pull]
      exact congrArg Transcript.afterPull (dispatcher.replay_finishTrace line _ _)
  | cons moment moments ih =>
    by_cases hd : line.isDown = true
    · rw [pullTrace, pull, if_pos hd, if_pos hd]
      rfl
    rw [pullTrace, pull, if_neg hd, if_neg hd, Trace.replay_after_pull, momentTrace,
      Trace.replay_after_moment]
    apply congrArg Transcript.afterPull
    cases hr : moment.result with
    | none => exact Moment.replay_onward_none hr (dispatcher.pullTrace field · moments) _
    | some found =>
      cases found with
      | ended => exact dispatcher.replay_finishTrace _ _ _
      | failed error => exact dispatcher.replay_finishTrace _ _ _
      | value value =>
        have goes : ∀ line : Line, (moment.onward
            (fun line => dispatcher.pullTrace field line moments) line).replay line =
              dispatcher.pull field (line.behind moment) moments :=
          fun line => (Moment.replay_onward_some hr _ line).trans (ih _)
        by_cases he : (dispatcher.shaper field value).isEmpty = true
        · simpa [reactTrace, onPull, Reaction.nothing, he] using goes (line.during moment)
        · simpa [reactTrace, onPull, he] using dispatcher.replay_emitTrace (line.during moment)
            (.next (dispatcher.shaper field value)) goes

theorem unasked_emit {next : Line → Transcript} (line : Line) (event : Event)
    (h : ∀ line, (next line).Unasked) : (dispatcher.emit line event next).Unasked := by
  unfold emit
  split
  · exact h line
  · split
    · exact ⟨(h _).asked, (h _).subscribed⟩
    · exact ⟨rfl, rfl⟩

/-- Nobody is asked for values once there is a feed. -/
theorem unasked_pull (line : Line) (moments : List (Moment Pull)) :
    (dispatcher.pull field line moments).Unasked := by
  have pulled : ∀ {transcript : Transcript}, transcript.Unasked → transcript.afterPull.Unasked :=
    fun h => ⟨h.asked, h.subscribed⟩
  induction moments generalizing line with
  | nil =>
    rw [pull]
    split
    · exact ⟨rfl, rfl⟩
    · exact pulled (dispatcher.unasked_finish line _ _)
  | cons moment moments ih =>
    rw [pull]
    split
    · exact ⟨rfl, rfl⟩
    apply pulled
    cases moment.result with
    | none => exact ⟨rfl, rfl⟩
    | some found =>
      cases found with
      | ended => exact dispatcher.unasked_finish _ _ _
      | failed error => exact dispatcher.unasked_finish _ _ _
      | value value =>
        show (if (dispatcher.shaper field value).isEmpty then _ else _ : Transcript).Unasked
        split
        · exact ih _
        · exact dispatcher.unasked_emit _ _ fun line => ih (line.behind moment)

theorem replay_followTrace (line : Line) (feed : Feed) :
    (dispatcher.followTrace field line feed).replay line = dispatcher.follow field line feed := by
  rw [followTrace, momentTrace, Trace.replay_after_moment, follow]
  cases hr : feed.setup.result with
  | none => exact Moment.replay_onward_none hr (dispatcher.pullTrace field · feed.pulls) _
  | some result =>
    cases result with
    | error error => exact dispatcher.replay_finishTrace _ _ _
    | ok =>
      have goes := Moment.replay_onward_some hr (dispatcher.pullTrace field · feed.pulls)
      exact (goes _).trans (dispatcher.replay_pullTrace field _ _)

theorem unasked_follow (line : Line) (feed : Feed) :
    (dispatcher.follow field line feed).Unasked := by
  unfold follow
  cases feed.setup.result with
  | none => exact ⟨rfl, rfl⟩
  | some result =>
    cases result with
    | error error => exact dispatcher.unasked_finish _ _ _
    | ok => exact dispatcher.unasked_pull field _ _

/-- Played on its line, the trace of a run leaves the transcript of the run. -/
theorem replay_dispatchTrace (line : Line) :
    (dispatcher.dispatchTrace line field).replay line = dispatcher.dispatch line field := by
  by_cases hd : line.isDown = true
  · rw [dispatchTrace, dispatch, if_pos hd, if_pos hd]
    rfl
  have unasked := dispatcher.unasked_follow field line (dispatcher.resolver.feed field)
  rw [dispatchTrace, dispatch, if_neg hd, if_neg hd, Trace.replay_after_subscribe,
    replay_followTrace, unasked.asked, unasked.subscribed, List.append_nil]

end Dispatcher

namespace Session

/-- The trace with the close behind a last event that needs one. -/
def concludeTrace (configuration : Configuration) (trace : Trace) : Trace :=
  match configuration.protocol?, trace.ending with
  | none, .outcome outcome =>
    if outcome.isTerminal then
      { trace with
        acts := trace.acts ++ [.close configuration.closeCode configuration.closeReason] }
    else trace
  | _, _ => trace

/-- The trace of one request until its last message. -/
def trace (session : Session) (line : Line) (id? : Option String) (payload : Json) : Trace :=
  concludeTrace session.configuration <|
    match session.prepare payload with
    | .ok field => (session.dispatcher id?).dispatchTrace line field
    | .error errors => (session.dispatcher id?).finishTrace line (.error errors) .rejected

theorem replay_concludeTrace (configuration : Configuration) (trace : Trace) (line : Line) :
    (concludeTrace configuration trace).replay line =
      conclude configuration (trace.replay line) := by
  obtain ⟨acts, ending⟩ := trace
  unfold concludeTrace conclude
  cases configuration.protocol? with
  | some protocol => rfl
  | none =>
    cases ending with
    | failed error => rfl
    | waiting => rfl
    | outcome outcome =>
      by_cases ht : outcome.isTerminal = true
      · simp [Trace.replay, ht, Line.sent_append, Line.sent, Act.sent, Act.on, Act.isPull,
          Act.field?, Act.known?]
      · simp [Trace.replay, ht]

/-- Played on its line, the trace of a request leaves the transcript of its run. -/
theorem replay_trace (session : Session) (line : Line) (id? : Option String) (payload : Json) :
    (session.trace line id? payload).replay line = session.run line id? payload := by
  rw [trace, replay_concludeTrace, run]
  cases session.prepare payload with
  | ok field => exact congrArg _ ((session.dispatcher id?).replay_dispatchTrace field line)
  | error errors => exact congrArg _ ((session.dispatcher id?).replay_finishTrace line _ _)

end Session

end GraphQL.Subscription
