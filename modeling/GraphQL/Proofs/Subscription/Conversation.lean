import GraphQL.Proofs.Subscription.Course
import GraphQL.Proofs.Subscription.Preparation

/-!
# Subscriptions — what a request is answered with

A request passes stages before its field is prepared, and the first that fails
says why it is rejected (`Rejects`). What a session then writes has one form
for all requests: frames of results, at most one frame of a last event, and at
most one close behind it. Main statement: every run that no write fails has
this form, with the last event that belongs to its ending, and asks for values
of the accepted field only, at most once.

A close is left on the connection by every run that ends without a
sub-protocol, unless it was cancelled. A peer that has gone by then does not
get it.
-/

namespace GraphQL.Subscription

/-! ## Stages -/

namespace Session

/-- The payload is a request for a document without problems. -/
structure Checked (session : Session) (payload : Json) (request : Request) (document : Document) :
    Prop where
  wellFormed : Request.ofPayload payload = .ok request
  parsed : session.parser request.query = .ok document
  fragments : document.fragmentProblems = []
  valid : session.schema.diagnose document = []

/-- What the first stage that fails reports of a payload. -/
inductive Rejects (session : Session) (payload : Json) : List Diagnostic → Prop
  | payload {error : RequestError} (h : Request.ofPayload payload = .error error) :
      Rejects session payload [error.diagnostic]
  | query {request : Request} {errors : List Diagnostic}
      (hr : Request.ofPayload payload = .ok request)
      (h : session.parser request.query = .error errors) : Rejects session payload errors
  | document {request : Request} {document : Document}
      (hr : Request.ofPayload payload = .ok request)
      (hd : session.parser request.query = .ok document)
      (h : document.fragmentProblems ++ session.schema.diagnose document ≠ []) :
      Rejects session payload (document.fragmentProblems ++ session.schema.diagnose document)
  | selection {request : Request} {document : Document} {error : OperationError}
      (hc : session.Checked payload request document)
      (h : (session.schema.normalize document).select request.operationName = .error error) :
      Rejects session payload [error.diagnostic]
  | kind {request : Request} {document : Document} {operation : Operation}
      (hc : session.Checked payload request document)
      (hs : (session.schema.normalize document).select request.operationName = .ok operation)
      (h : operation.kind ≠ .subscription) :
      Rejects session payload [unsupportedDiagnostic operation]
  | field {request : Request} {document : Document} {operation : Operation}
      {diagnostic : Diagnostic} (hc : session.Checked payload request document)
      (hs : (session.schema.normalize document).select request.operationName = .ok operation)
      (hk : operation.kind = .subscription)
      (h : rootField operation (.ofDocument (session.schema.normalize document))
        request.variableValues = .error diagnostic) : Rejects session payload [diagnostic]

/-- A payload passes all stages and asks for the field. -/
inductive Accepts (session : Session) (payload : Json) : RootField → Prop
  | mk {request : Request} {document : Document} {operation : Operation} {field : RootField}
      (hc : session.Checked payload request document)
      (hs : (session.schema.normalize document).select request.operationName = .ok operation)
      (hk : operation.kind = .subscription)
      (hf : rootField operation (.ofDocument (session.schema.normalize document))
        request.variableValues = .ok field) : Accepts session payload field

variable {session : Session} {payload : Json}

theorem accepts_or_rejects (session : Session) (payload : Json) :
    (∃ field, session.Accepts payload field) ∨ ∃ errors, session.Rejects payload errors := by
  cases hr : Request.ofPayload payload with
  | error error => exact .inr ⟨_, .payload hr⟩
  | ok request =>
    cases hd : session.parser request.query with
    | error errors => exact .inr ⟨_, .query hr hd⟩
    | ok document =>
      by_cases hp : document.fragmentProblems = [] ∧ session.schema.diagnose document = []
      · have hc : session.Checked payload request document := ⟨hr, hd, hp.1, hp.2⟩
        cases hs : (session.schema.normalize document).select request.operationName with
        | error error => exact .inr ⟨_, .selection hc hs⟩
        | ok operation =>
          by_cases hk : operation.kind = .subscription
          · cases hf : rootField operation (.ofDocument (session.schema.normalize document))
                request.variableValues with
            | error diagnostic => exact .inr ⟨_, .field hc hs hk hf⟩
            | ok field => exact .inl ⟨field, .mk hc hs hk hf⟩
          · exact .inr ⟨_, .kind hc hs hk⟩
      · exact .inr ⟨_, .document hr hd (mt List.append_eq_nil_iff.1 hp)⟩

theorem prepare_of_parsed {request : Request} {document : Document}
    (hr : Request.ofPayload payload = .ok request)
    (hd : session.parser request.query = .ok document) :
    session.prepare payload =
      if (document.fragmentProblems ++ session.schema.diagnose document).isEmpty then
        chooseField (session.schema.normalize document) request
      else .error (document.fragmentProblems ++ session.schema.diagnose document) := by
  rw [prepare, hr]
  show (session.parser request.query >>= _) = _
  rw [hd]
  rfl

theorem Checked.prepare_eq {request : Request} {document : Document}
    (h : session.Checked payload request document) :
    session.prepare payload = chooseField (session.schema.normalize document) request := by
  rw [prepare_of_parsed h.wellFormed h.parsed, h.fragments, h.valid]
  rfl

theorem Accepts.prepare_eq {field : RootField} (h : session.Accepts payload field) :
    session.prepare payload = .ok field := by
  obtain ⟨hc, hs, hk, hf⟩ := h
  simp [hc.prepare_eq, chooseField, hs, hk, hf, Except.mapError, bind, Except.bind]

theorem Rejects.prepare_eq {errors : List Diagnostic} (h : session.Rejects payload errors) :
    session.prepare payload = .error errors := by
  cases h with
  | payload h => simp [prepare, h, Except.mapError, bind, Except.bind]
  | query hr h => simp [prepare, hr, h, Except.mapError, bind, Except.bind]
  | document hr hd h =>
    rw [prepare_of_parsed hr hd, if_neg]
    rwa [List.isEmpty_iff]
  | selection hc h =>
    simp [hc.prepare_eq, chooseField, h, Except.mapError, bind, Except.bind]
  | kind hc hs h =>
    simp [hc.prepare_eq, chooseField, hs, h, Except.mapError, bind, Except.bind]
  | field hc hs hk h =>
    simp [hc.prepare_eq, chooseField, hs, hk, h, Except.mapError, bind, Except.bind]

end Session

/-! ## What a run writes -/

/-- The last events of a run that ends in a way. -/
inductive Concludes : Ending → List Event → Prop
  | completed : Concludes (.outcome .completed) [.complete]
  | errored (errors : List Diagnostic) : Concludes (.outcome .errored) [.error errors]
  | setupFailed (errors : List Diagnostic) : Concludes (.outcome .setupFailed) [.error errors]
  | rejected (errors : List Diagnostic) : Concludes (.outcome .rejected) [.error errors]
  | cancelled : Concludes (.outcome .cancelled) []
  | waiting : Concludes .waiting []

/-- What is left behind the frames: one close with the configured code and reason
if there is no sub-protocol and the run ended otherwise than by cancellation. -/
inductive Configuration.Leaves (configuration : Configuration) (connection : Connection) :
    Ending → List Sent → Prop
  | enveloped (ending : Ending) (hp : configuration.protocol? ≠ none) :
      Leaves configuration connection ending []
  | unclosed {ending : Ending}
      (he : ∀ outcome, ending = .outcome outcome → outcome = .cancelled) :
      Leaves configuration connection ending []
  | closed {outcome : Outcome} (failed : Bool) (hp : configuration.protocol? = none)
      (ho : outcome ≠ .cancelled) (hg : connection.isGone = false) :
      Leaves configuration connection (.outcome outcome)
        [⟨.close configuration.closeCode configuration.closeReason, failed⟩]
  | gone {outcome : Outcome} (hp : configuration.protocol? = none) (ho : outcome ≠ .cancelled)
      (hg : connection.isGone = true) : Leaves configuration connection (.outcome outcome) []

theorem Halt.concludes (halt : Halt) : Concludes halt.ending halt.event?.toList := by
  cases halt with
  | observed => exact .cancelled
  | interrupted => exact .cancelled
  | failed error => exact .errored _
  | ended => exact .completed
  | stuck => exact .waiting

/-- The events of a course are results, and then those of its ending. -/
theorem Dispatcher.Takes.exists_events {dispatcher : Dispatcher} {line : Line} {field : RootField}
    {course : Course} (h : dispatcher.Takes line field course) :
    ∃ (responses : List Response) (last : List Event),
      course.events = responses.map .next ++ last ∧ Concludes course.ending last := by
  cases h with
  | down => exact ⟨[], [], rfl, .cancelled⟩
  | setupFailed => exact ⟨[], _, rfl, .setupFailed _⟩
  | setupInterrupted => exact ⟨[], [], rfl, .cancelled⟩
  | setupStuck => exact ⟨[], [], rfl, .waiting⟩
  | @pulled _ halt => exact ⟨_, _, rfl, halt.concludes⟩

theorem Dispatcher.Takes.ending_ne_rejected {dispatcher : Dispatcher} {line : Line}
    {field : RootField} {course : Course} (h : dispatcher.Takes line field course) :
    course.ending ≠ .outcome .rejected := by
  cases h with
  | @pulled _ halt => cases halt <;> simp [Halt.ending]
  | _ => simp

/-- Nothing was asked for. -/
structure Transcript.Unasked (transcript : Transcript) : Prop where
  asked : transcript.asked = []
  subscribed : transcript.subscribed = []

theorem Dispatcher.unasked_finish (dispatcher : Dispatcher) (line : Line) (event : Event)
    (outcome : Outcome) : (dispatcher.finish line event outcome).Unasked := by
  unfold finish emit
  split
  · exact ⟨rfl, rfl⟩
  · split <;> exact ⟨rfl, rfl⟩

/-- A run asks for values once at most, and of its own field. -/
theorem Dispatcher.asked_dispatch (dispatcher : Dispatcher) (line : Line) (field : RootField) :
    (dispatcher.dispatch line field).Unasked ∨
      (dispatcher.dispatch line field).asked = [field] ∧
        (dispatcher.dispatch line field).subscribed =
          if dispatcher.resolver.knows field then [field] else [] := by
  rw [dispatch]
  split
  · exact .inl ⟨rfl, rfl⟩
  · exact .inr ⟨rfl, rfl⟩

/-- An event has a frame, unless it is a completion without a sub-protocol. -/
theorem Framing.text?_eq_none_iff (framing : Framing) (event : Event) :
    framing.text? event = none ↔ framing.protocol? = none ∧ event.kind = .complete := by
  rw [text?, Option.map_eq_none_iff, frame?]
  cases framing.protocol? with
  | some protocol => simp
  | none => cases event <;> simp [payload?, Event.kind]

namespace Session

variable {session : Session} {payload : Json}

/-- An attempt to close leaves the close, unless the peer has gone. -/
theorem leaves_close {configuration : Configuration} {outcome : Outcome}
    (hp : configuration.protocol? = none) (ho : outcome ≠ .cancelled) (connection : Connection) :
    configuration.Leaves connection (.outcome outcome)
      (connection.close configuration.closeCode configuration.closeReason).1 := by
  cases connection with
  | channel gone =>
    cases gone with
    | true => exact .gone hp ho rfl
    | false => exact .closed false hp ho rfl
  | recorder _ failClose _ => exact .closed failClose hp ho rfl

/-- What a session adds to a run is what a close leaves, where one is due. -/
theorem conclude_eq (configuration : Configuration) (transcript : Transcript) :
    ∃ closing, configuration.Leaves transcript.connection transcript.ending closing ∧
      conclude configuration transcript =
        { transcript with sent := transcript.sent ++ closing } := by
  obtain ⟨sent, pulls, asked, subscribed, ending, connection, cancelled⟩ := transcript
  cases hp : configuration.protocol? with
  | some protocol => exact ⟨[], .enveloped _ (by simp [hp]), by simp [conclude, hp]⟩
  | none =>
    cases ending with
    | outcome outcome =>
      by_cases ho : outcome = .cancelled
      · subst ho
        exact ⟨[], .unclosed (by simp), by simp [conclude, hp, Outcome.isTerminal]⟩
      · have ht : outcome.isTerminal = true := by
          cases outcome with
          | cancelled => exact absurd rfl ho
          | _ => rfl
        exact ⟨_, leaves_close hp ho connection, by simp [conclude, hp, ht]⟩
    | failed error => exact ⟨[], .unclosed (by simp), by simp [conclude, hp]⟩
    | waiting => exact ⟨[], .unclosed (by simp), by simp [conclude, hp]⟩

/-! ## Whole conversations -/

/-- The framing of one request. -/
def framing (session : Session) (id? : Option String) : Framing :=
  ⟨session.configuration.protocol?, id?⟩

/-- The run of an accepted field or of a rejection, before the connection is closed. -/
def dispatcher (session : Session) (id? : Option String) : Dispatcher :=
  ⟨session.framing id?, session.resolver, session.shaper⟩

theorem Accepts.run_eq {field : RootField} (h : session.Accepts payload field) (line : Line)
    (id? : Option String) : session.run line id? payload =
      conclude session.configuration ((session.dispatcher id?).dispatch line field) := by
  rw [run, h.prepare_eq]
  rfl

theorem Rejects.run_eq {errors : List Diagnostic} (h : session.Rejects payload errors)
    (line : Line) (id? : Option String) : session.run line id? payload =
      conclude session.configuration ((session.dispatcher id?).reject line errors) := by
  rw [run, h.prepare_eq]
  rfl

/-- The transcript of a run is what a session answers a payload with. -/
structure Answers (session : Session) (id? : Option String) (payload : Json)
    (transcript : Transcript) : Prop where
  /-- Results, the last events of the ending, and what is left of a close. -/
  messages : ∃ (responses : List Response) (last : List Event) (closing : List Sent),
    transcript.sent = (session.framing id?).sent (responses.map .next ++ last) ++ closing ∧
      Concludes transcript.ending last ∧
      session.configuration.Leaves transcript.connection transcript.ending closing
  /-- Values are asked for once at most, and of an accepted field only. -/
  asked : transcript.Unasked ∨ ∃ field, session.Accepts payload field ∧
    transcript.asked = [field] ∧
      transcript.subscribed = if session.resolver.knows field then [field] else []
  /-- A run ends so exactly if some stage fails. -/
  rejected : transcript.ending = .outcome .rejected ↔ ∃ errors, session.Rejects payload errors
  /-- Then the one frame is that of the errors, and nothing was asked for or pulled. -/
  rejection : ∀ errors, session.Rejects payload errors →
    transcript.Unasked ∧ transcript.pulls = 0 ∧
      ∃ text closing, (session.framing id?).text? (.error errors) = some text ∧
        transcript.sent = ⟨.text text, false⟩ :: closing ∧
        session.configuration.Leaves transcript.connection transcript.ending closing

theorem Accepts.not_rejects {field : RootField} (h : session.Accepts payload field)
    (errors : List Diagnostic) : ¬ session.Rejects payload errors := by
  intro hr
  cases h.prepare_eq.symm.trans hr.prepare_eq

theorem Rejects.unique {errors other : List Diagnostic} (h : session.Rejects payload errors)
    (h' : session.Rejects payload other) : other = errors := by
  cases h.prepare_eq.symm.trans h'.prepare_eq
  rfl

variable {line : Line} {id? : Option String}

theorem Answers.unfailed {transcript : Transcript}
    (h : session.Answers id? payload transcript) : transcript.Unfailed := by
  obtain ⟨responses, last, closing, -, hlast, -⟩ := h.messages
  intro error he
  rw [he] at hlast
  cases hlast

/-- A failed write is no last word, so nothing is closed behind it. -/
theorem cutOff_conclude {configuration : Configuration} {transcript : Transcript}
    {framing : Framing} {events : List Event} (h : transcript.CutOff framing events line) :
    conclude configuration transcript = transcript := by
  obtain ⟨error, he, -⟩ := h.failed
  unfold conclude
  rw [he]
  cases configuration.protocol? <;> rfl

/-- A run of the session passes a line: on the way of the field that it accepts, or
just where it starts. -/
def Passes (session : Session) (id? : Option String) (payload : Json) (line passed : Line) :
    Prop :=
  passed = line ∨ ∃ field, session.Accepts payload field ∧
    (session.dispatcher id?).Passes line field passed

/-- The payload is answered, or the answer breaks off at a send that fails. -/
def Handled (session : Session) (id? : Option String) (payload : Json) (line : Line)
    (transcript : Transcript) : Prop :=
  session.Answers id? payload transcript ∨
    ∃ events passed, session.Passes id? payload line passed ∧
      transcript.CutOff (session.framing id?) events passed

/-- An accepted field is answered with the course of its run, unless a send fails. -/
theorem Accepts.answers {field : RootField} (h : session.Accepts payload field) :
    session.Handled id? payload line (session.run line id? payload) := by
  obtain ⟨course, ht⟩ := (session.dispatcher id?).exists_takes line field
  rw [h.run_eq]
  rcases Dispatcher.dispatch_followed ht with shown | ⟨passed, hp, hc⟩
  · obtain ⟨closing, hl, he⟩ :=
      conclude_eq session.configuration ((session.dispatcher id?).dispatch line field)
    rw [he]
    -- the events of the course come first, and the close follows what it ends with
    refine .inl ⟨?_, ?_, ?_, fun errors hr => absurd hr (h.not_rejects errors)⟩
    · obtain ⟨responses, last, hevents, hlast⟩ := ht.exists_events
      refine ⟨responses, last, closing, ?_, shown.ending ▸ hlast, hl⟩
      rw [← hevents]
      exact congrArg (· ++ closing) shown.sent
    · rcases (session.dispatcher id?).asked_dispatch line field with ⟨ha, hs⟩ | ⟨ha, hs⟩
      · exact .inl ⟨ha, hs⟩
      · exact .inr ⟨field, h, ha, hs⟩
    · refine iff_of_false ?_ fun ⟨errors, hr⟩ => h.not_rejects errors hr
      exact fun hr => ht.ending_ne_rejected (shown.ending.symm.trans hr)
  · rw [cutOff_conclude hc]
    exact .inr ⟨course.events, passed, .inr ⟨field, h, hp⟩, hc⟩

/-- A rejection is answered with the frame of its errors, unless the send fails. -/
theorem Rejects.answers {errors : List Diagnostic} (h : session.Rejects payload errors) :
    session.Handled id? payload line (session.run line id? payload) := by
  have unasked : ((session.dispatcher id?).reject line errors).Unasked :=
    Dispatcher.unasked_finish _ _ _ _
  rw [h.run_eq]
  rcases (session.dispatcher id?).finish_followed line (.error errors) .rejected
    with shown | ⟨_, rfl, hc⟩
  · obtain ⟨closing, hl, he⟩ :=
      conclude_eq session.configuration ((session.dispatcher id?).reject line errors)
    rw [he]
    refine .inl ⟨?_, .inl ⟨unasked.asked, unasked.subscribed⟩,
      iff_of_true shown.ending ⟨errors, h⟩, fun other ho => ?_⟩
    · exact ⟨[], [.error errors], closing, congrArg (· ++ closing) shown.sent,
        shown.ending ▸ .rejected errors, hl⟩
    · obtain rfl := h.unique ho
      refine ⟨⟨unasked.asked, unasked.subscribed⟩, shown.pulls, ?_⟩
      cases ht : (session.framing id?).text? (.error other) with
      | none => cases ((Framing.text?_eq_none_iff _ _).1 ht).2
      | some text =>
        have hsent : (session.framing id?).sent [.error other] = [⟨.text text, false⟩] := by
          simp [Framing.sent, ht]
        exact ⟨text, closing, rfl, congrArg (· ++ closing) (shown.sent.trans hsent), hl⟩
  · exact .inr ⟨_, _, .inl rfl, (cutOff_conclude hc).symm ▸ hc⟩

/-- Whether a payload is rejected does not depend on the resolver, and the answer neither. -/
theorem Rejects.run_withResolver {errors : List Diagnostic} (h : session.Rejects payload errors)
    (resolver : Resolver) :
    Session.run { session with resolver } line id? payload = session.run line id? payload := by
  rw [h.run_eq]
  have prepared : Session.prepare { session with resolver } payload = .error errors := h.prepare_eq
  rw [run, prepared]
  rfl

/-- **What a request is answered with**: a payload is accepted or rejected. Unless a
write fails, the messages of a run are results, the last event of its ending
and what is left of a close, values are asked for at most once, of an accepted
field, and a rejection is one frame. If a write fails, it is a send on a line
that the run passes. Every event has a frame of its own, but a completion
without a sub-protocol; and a rejection asks nobody, whatever the resolver. -/
theorem run_answers (session : Session) (line : Line) (id? : Option String) (payload : Json) :
    ((∃ field, session.Accepts payload field) ∨ ∃ errors, session.Rejects payload errors) ∧
      ((session.run line id? payload).Unfailed →
        session.Answers id? payload (session.run line id? payload)) ∧
      (¬ (session.run line id? payload).Unfailed →
        ∃ events passed, session.Passes id? payload line passed ∧
          (session.run line id? payload).CutOff (session.framing id?) events passed) ∧
      (∀ event, (session.framing id?).text? event = none ↔
        session.configuration.protocol? = none ∧ event.kind = .complete) ∧
      ∀ errors, session.Rejects payload errors → ∀ resolver,
        Session.run { session with resolver } line id? payload = session.run line id? payload := by
  have handled : session.Handled id? payload line (session.run line id? payload) := by
    rcases accepts_or_rejects session payload with ⟨field, ha⟩ | ⟨errors, hr⟩
    · exact ha.answers
    · exact hr.answers
  refine ⟨accepts_or_rejects session payload, fun hu => ?_, fun hu => ?_,
    (session.framing id?).text?_eq_none_iff, fun errors hr resolver => hr.run_withResolver resolver⟩
  · rcases handled with h | ⟨events, passed, -, h⟩
    · exact h
    · obtain ⟨error, he, -⟩ := h.failed
      exact absurd he (hu error)
  · rcases handled with h | h
    · exact absurd h.unfailed hu
    · exact h

end Session

/-- A session in which the readings are lost. -/
def losing : Session := { watching with resolver := fun _ => some failingFeed }

theorem losing_accepts :
    losing.Accepts watchPayload (preparedReading (Float.ofInt (300 : Int64).toInt)) := by
  have prepared : losing.prepare watchPayload = .ok _ := prepare_watching
  rcases losing.accepts_or_rejects watchPayload with ⟨field, ha⟩ | ⟨errors, hr⟩
  · cases prepared.symm.trans ha.prepare_eq
    exact ha
  · cases prepared.symm.trans hr.prepare_eq

/-- The reading is accepted and asked for, and the answer has the form of all answers. -/
theorem losing_answers :
    (losing.run freshLine none watchPayload).Unfailed ∧
      (losing.run freshLine none watchPayload).asked =
        [preparedReading (Float.ofInt (300 : Int64).toInt)] ∧
      (losing.run freshLine none watchPayload).subscribed =
        [preparedReading (Float.ofInt (300 : Int64).toInt)] ∧
      losing.Answers none watchPayload (losing.run freshLine none watchPayload) := by
  obtain ⟨closing, -, he⟩ := Session.conclude_eq losing.configuration
    ((losing.dispatcher none).dispatch freshLine (preparedReading (.ofInt (300 : Int64).toInt)))
  have ending : (losing.run freshLine none watchPayload).ending = .outcome .errored := by
    rw [losing_accepts.run_eq, he]
    rfl
  have unfailed : (losing.run freshLine none watchPayload).Unfailed := by
    intro error h
    rw [ending] at h
    cases h
  refine ⟨unfailed, ?_, ?_, (Session.run_answers _ _ _ _).2.1 unfailed⟩
  · rw [losing_accepts.run_eq, he]
    rfl
  · rw [losing_accepts.run_eq, he]
    rfl

end GraphQL.Subscription
