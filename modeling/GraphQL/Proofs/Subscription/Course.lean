import GraphQL.Subscription.Run

/-!
# Subscriptions — the course of a run

What a run sends, how often it pulls and how it ends, said without the loop: a
number of pulls gives a value each, and then something stops the run
(`HaltsAt`). The events are the responses of these values that are not empty,
in order, and the last event that belongs to what stopped the run. Main
statement: unless a send fails, a run is what its course says, and a run ends
with a failed write only where a send fails.

A send leaves nothing behind on a line but the number of sends, and a run looks
at a line only to see whether it is down. So where a run halts can be said of
the line before anything was sent. A peer that goes away behind a send is seen
before the next pull, like one that has gone while the pull before it waited.
-/

namespace GraphQL.Subscription

/-! ## Lines -/

namespace Connection

/-- The connection after some sends. -/
def afterSends : Connection → Nat → Connection
  | .channel gone, _ => .channel gone
  | .recorder failSendAt failClose sends, n => .recorder failSendAt failClose (sends + n)

theorem fst_send (connection : Connection) : connection.send.1 = connection.afterSends 1 := by
  cases connection <;> rfl

@[simp] theorem afterSends_zero (connection : Connection) :
    connection.afterSends 0 = connection := by
  cases connection <;> rfl

theorem afterSends_afterSends (connection : Connection) (m n : Nat) :
    (connection.afterSends m).afterSends n = connection.afterSends (m + n) := by
  cases connection with
  | channel gone => rfl
  | recorder failSendAt failClose sends => simp [afterSends, Nat.add_assoc]

@[simp] theorem isGone_afterSends (connection : Connection) (n : Nat) :
    (connection.afterSends n).isGone = connection.isGone := by
  cases connection <;> rfl

theorem disconnected_afterSends (connection : Connection) (n : Nat) :
    (connection.afterSends n).disconnected = connection.disconnected.afterSends n := by
  cases connection <;> rfl

end Connection

namespace Line

variable {α : Type}

/-- The line after a moment. -/
def across (line : Line) (moment : Moment α) : Line := (line.during moment).behind moment

/-- The line after some moments. -/
def through (line : Line) (moments : List (Moment α)) : Line :=
  moments.foldl Line.across line

@[simp] theorem through_cons (line : Line) (moment : Moment α) (moments : List (Moment α)) :
    line.through (moment :: moments) = (line.across moment).through moments := rfl

/-- The line after some sends. -/
def afterSends (line : Line) (n : Nat) : Line := ⟨line.connection.afterSends n, line.cancelled⟩

@[simp] theorem isDown_afterSends (line : Line) (n : Nat) :
    (line.afterSends n).isDown = line.isDown := by
  simp [isDown, afterSends]

@[simp] theorem during_afterSends (line : Line) (n : Nat) (moment : Moment α) :
    (line.afterSends n).during moment = (line.during moment).afterSends n := by
  cases hd : moment.disconnects <;>
    simp [during, afterSends, hd, Connection.disconnected_afterSends]

@[simp] theorem behind_afterSends (line : Line) (n : Nat) (moment : Moment α) :
    (line.afterSends n).behind moment = (line.behind moment).afterSends n := by
  cases hl : moment.leaves <;>
    simp [behind, afterSends, hl, Connection.disconnected_afterSends]

@[simp] theorem across_afterSends (line : Line) (n : Nat) (moment : Moment α) :
    (line.afterSends n).across moment = (line.across moment).afterSends n := by
  rw [across, during_afterSends, behind_afterSends, across]

@[simp] theorem through_afterSends (line : Line) (n : Nat) (moments : List (Moment α)) :
    (line.afterSends n).through moments = (line.through moments).afterSends n := by
  induction moments generalizing line with
  | nil => rfl
  | cons moment moments ih => rw [through_cons, through_cons, across_afterSends, ih]

end Line

/-! ## What stops a run -/

/-- What stops a run that pulls values. -/
inductive Halt where
  /-- Before a pull the run was cancelled or the peer has gone. -/
  | observed
  /-- That happened while a pull waited. -/
  | interrupted
  | failed (error : ResolverError)
  | ended
  /-- The pull never finds anything. -/
  | stuck

namespace Halt

/-- The last event. -/
def event? : Halt → Option Event
  | .failed error => some (.ofMessage error.text)
  | .ended => some .complete
  | _ => none

/-- The pulls that belong to what stops the run. -/
def pulls : Halt → Nat
  | .observed => 0
  | _ => 1

/-- How the run ends. -/
def ending : Halt → Ending
  | .observed | .interrupted => .outcome .cancelled
  | .failed _ => .outcome .errored
  | .ended => .outcome .completed
  | .stuck => .waiting

/-- A run that is about to pull is stopped, by its line or by what the pull
finds. Behind its last moment a feed ends. -/
inductive Stops (line : Line) : Option (Moment Pull) → Halt → Prop
  | observed {moment? : Option (Moment Pull)} (hd : line.isDown = true) :
      Stops line moment? .observed
  | interrupted {moment : Moment Pull} (hd : line.isDown = false) (hr : moment.result = none)
      (hi : (line.during moment).isDown = true) : Stops line (some moment) .interrupted
  | failed {moment : Moment Pull} {error : ResolverError} (hd : line.isDown = false)
      (hr : moment.result = some (.failed error)) : Stops line (some moment) (.failed error)
  | ended {moment : Moment Pull} (hd : line.isDown = false)
      (hr : moment.result = some .ended) : Stops line (some moment) .ended
  | behind (hd : line.isDown = false) : Stops line none .ended
  | stuck {moment : Moment Pull} (hd : line.isDown = false) (hr : moment.result = none)
      (hi : (line.during moment).isDown = false) : Stops line (some moment) .stuck

theorem Stops.afterSends {line : Line} {moment? : Option (Moment Pull)} {halt : Halt}
    (h : halt.Stops line moment?) (n : Nat) : halt.Stops (line.afterSends n) moment? := by
  cases h with
  | observed hd => exact .observed (by simpa using hd)
  | interrupted hd hr hi => exact .interrupted (by simpa using hd) hr (by simpa using hi)
  | failed hd hr => exact .failed (by simpa using hd) hr
  | ended hd hr => exact .ended (by simpa using hd) hr
  | behind hd => exact .behind (by simpa using hd)
  | stuck hd hr hi => exact .stuck (by simpa using hd) hr (by simpa using hi)

end Halt

/-- The value that a pull finds. -/
def Moment.value? (moment : Moment Pull) : Option Json :=
  match moment.result with
  | some (.value value) => some value
  | _ => none

/-- A run that starts on a line halts after some pulls: each of them was made
on a line that was not down and found a value, and then the run is stopped. -/
structure HaltsAt (line : Line) (moments : List (Moment Pull)) (k : Nat) (halt : Halt) : Prop where
  values : ∀ i < k, ∃ moment value, moments[i]? = some moment ∧
    (line.through (moments.take i)).isDown = false ∧ moment.value? = some value
  stops : halt.Stops (line.through (moments.take k)) moments[k]?

namespace HaltsAt

variable {line : Line} {moments : List (Moment Pull)} {k : Nat} {halt : Halt}

theorem afterSends (h : HaltsAt line moments k halt) (n : Nat) :
    HaltsAt (line.afterSends n) moments k halt := by
  refine ⟨fun i hi => ?_, ?_⟩
  · obtain ⟨moment, value, hm, hd, hv⟩ := h.values i hi
    exact ⟨moment, value, hm, by simpa using hd, hv⟩
  · rw [Line.through_afterSends]
    exact h.stops.afterSends n

theorem zero_iff : HaltsAt line moments 0 halt ↔ halt.Stops line moments[0]? :=
  ⟨fun h => h.stops, fun h => ⟨fun _ hi => absurd hi (Nat.not_lt_zero _), h⟩⟩

/-- A run halts later if the next pull finds a value, and from there it halts. -/
theorem succ_iff : HaltsAt line moments (k + 1) halt ↔ ∃ moment rest value,
    moments = moment :: rest ∧ line.isDown = false ∧ moment.value? = some value ∧
      HaltsAt (line.across moment) rest k halt := by
  constructor
  · intro h
    obtain ⟨moment, value, hm, hd, hv⟩ := h.values 0 (Nat.succ_pos k)
    cases moments with
    | nil => cases hm
    | cons first rest =>
      cases hm
      refine ⟨_, rest, value, rfl, hd, hv, fun i hi => ?_, h.stops⟩
      exact h.values (i + 1) (Nat.succ_lt_succ hi)
  · rintro ⟨moment, rest, value, rfl, hd, hv, h⟩
    refine ⟨fun i hi => ?_, h.stops⟩
    cases i with
    | zero => exact ⟨moment, value, rfl, hd, hv⟩
    | succ i => exact h.values i (Nat.lt_of_succ_lt_succ hi)

end HaltsAt

/-- Every run halts somewhere: at its end at the latest. -/
theorem exists_haltsAt (line : Line) (moments : List (Moment Pull)) :
    ∃ k halt, HaltsAt line moments k halt := by
  -- only a value lets the run go on, with the line as the moment left it
  induction moments generalizing line with
  | nil =>
    cases hd : line.isDown with
    | true => exact ⟨0, .observed, HaltsAt.zero_iff.2 (.observed hd)⟩
    | false => exact ⟨0, .ended, HaltsAt.zero_iff.2 (.behind hd)⟩
  | cons moment moments ih =>
    cases hd : line.isDown with
    | true => exact ⟨0, .observed, HaltsAt.zero_iff.2 (.observed hd)⟩
    | false =>
      cases hr : moment.result with
      | none =>
        cases hi : (line.during moment).isDown with
        | true => exact ⟨0, .interrupted, HaltsAt.zero_iff.2 (.interrupted hd hr hi)⟩
        | false => exact ⟨0, .stuck, HaltsAt.zero_iff.2 (.stuck hd hr hi)⟩
      | some pull =>
        cases pull with
        | failed error => exact ⟨0, .failed error, HaltsAt.zero_iff.2 (.failed hd hr)⟩
        | ended => exact ⟨0, .ended, HaltsAt.zero_iff.2 (.ended hd hr)⟩
        | value value =>
          obtain ⟨k, halt, h⟩ := ih (line.across moment)
          have hv : moment.value? = some value := by rw [Moment.value?, hr]
          exact ⟨k + 1, halt, HaltsAt.succ_iff.2 ⟨moment, moments, value, rfl, hd, hv, h⟩⟩

/-! ## Courses -/

/-- What a run does: the events it sends, the number of its pulls, and how it ends. -/
structure Course where
  events : List Event
  pulls : Nat
  ending : Ending

/-- The messages that carry events; an event without a frame has none. -/
def Framing.sent (framing : Framing) (events : List Event) : List Sent :=
  events.filterMap fun event => (framing.text? event).map fun text => ⟨.text text, false⟩

theorem Framing.sent_append (framing : Framing) (first second : List Event) :
    framing.sent (first ++ second) = framing.sent first ++ framing.sent second :=
  List.filterMap_append

/-- The transcript is that of the course. -/
structure Course.Shown (course : Course) (framing : Framing) (transcript : Transcript) : Prop where
  sent : transcript.sent = framing.sent course.events
  pulls : transcript.pulls = course.pulls
  ending : transcript.ending = course.ending

/-- The transcript breaks off within some events: on the line as it was then, after
the sends that the peer got, the next send failed. -/
structure Transcript.CutOff (transcript : Transcript) (framing : Framing) (events : List Event)
    (line : Line) : Prop where
  sent : ∃ lost rest, framing.sent events = transcript.sent ++ lost :: rest
  failed : ∃ error, transcript.ending = .failed error ∧
    (line.connection.afterSends transcript.sent.length).send = (transcript.connection, some error)

variable {framing : Framing} {transcript : Transcript}

theorem Course.Shown.after {course : Course} (h : course.Shown framing transcript)
    (events : List Event) :
    Course.Shown ⟨events ++ course.events, course.pulls, course.ending⟩ framing
      (transcript.after (framing.sent events)) := by
  refine ⟨?_, h.pulls, h.ending⟩
  rw [Transcript.after, h.sent, framing.sent_append]

theorem Course.Shown.afterPull {course : Course} (h : course.Shown framing transcript) :
    Course.Shown ⟨course.events, course.pulls + 1, course.ending⟩ framing
      transcript.afterPull :=
  ⟨h.sent, congrArg (· + 1) h.pulls, h.ending⟩

/-- What was sent before counts as sends on the line. -/
theorem Transcript.CutOff.after {first second : List Event} {line : Line}
    (h : transcript.CutOff framing second (line.afterSends (framing.sent first).length)) :
    (transcript.after (framing.sent first)).CutOff framing (first ++ second) line := by
  obtain ⟨lost, rest, hsent⟩ := h.sent
  obtain ⟨error, he, hs⟩ := h.failed
  refine ⟨⟨lost, rest, ?_⟩, error, he, ?_⟩
  · rw [Transcript.after, framing.sent_append, hsent, List.append_assoc]
  · rw [Line.afterSends, Connection.afterSends_afterSends] at hs
    rwa [Transcript.after, List.length_append]

/-- Whatever was to be sent behind the event that failed. -/
theorem Transcript.CutOff.append {first : List Event} {line : Line}
    (h : transcript.CutOff framing first line) (second : List Event) :
    transcript.CutOff framing (first ++ second) line := by
  obtain ⟨lost, rest, hsent⟩ := h.sent
  refine ⟨⟨lost, rest ++ framing.sent second, ?_⟩, h.failed⟩
  rw [framing.sent_append, hsent, List.append_assoc, List.cons_append]

/-- The transcript is that of the course, or breaks off in it on one of some lines. -/
def Course.Followed (course : Course) (framing : Framing) (passed : Line → Prop)
    (transcript : Transcript) : Prop :=
  course.Shown framing transcript ∨
    ∃ line, passed line ∧ transcript.CutOff framing course.events line

namespace Course.Followed

variable {course : Course} {passed other : Line → Prop}

theorem mono (h : course.Followed framing passed transcript)
    (hp : ∀ line, passed line → other line) : course.Followed framing other transcript := by
  rcases h with h | ⟨line, hl, h⟩
  · exact .inl h
  · exact .inr ⟨line, hp line hl, h⟩

theorem afterPull (h : course.Followed framing passed transcript) :
    Course.Followed ⟨course.events, course.pulls + 1, course.ending⟩ framing passed
      transcript.afterPull := by
  rcases h with h | ⟨line, hl, h⟩
  · exact .inl h.afterPull
  · exact .inr ⟨line, hl, h.sent, h.failed⟩

theorem after {events : List Event} (h : course.Followed framing other transcript)
    (hp : ∀ line, other line →
      ∃ before, passed before ∧ line = before.afterSends (framing.sent events).length) :
    Course.Followed ⟨events ++ course.events, course.pulls, course.ending⟩ framing passed
      (transcript.after (framing.sent events)) := by
  rcases h with h | ⟨line, hl, h⟩
  · exact .inl (h.after events)
  · obtain ⟨before, hb, rfl⟩ := hp line hl
    exact .inr ⟨before, hb, h.after⟩

/-- What a run asked for does not matter. -/
theorem asking (h : course.Followed framing passed transcript)
    (asked subscribed : List RootField) :
    course.Followed framing passed { transcript with asked, subscribed } := by
  rcases h with h | ⟨line, hl, h⟩
  · exact .inl ⟨h.sent, h.pulls, h.ending⟩
  · exact .inr ⟨line, hl, h.sent, h.failed⟩

end Course.Followed

/-- No write of the run failed. -/
def Transcript.Unfailed (transcript : Transcript) : Prop :=
  ∀ error, transcript.ending ≠ .failed error

namespace Dispatcher

/-- The events of the values that some moments have: one for every response that
is not empty. -/
def nexts (dispatcher : Dispatcher) (field : RootField) (moments : List (Moment Pull)) :
    List Event :=
  (((moments.filterMap Moment.value?).map (dispatcher.shaper field)).filter
    fun response => !response.isEmpty).map .next

/-- The course that a run takes on a line for a root field. What the resolver answers
is a feed, also if it does not know the field. -/
inductive Takes (dispatcher : Dispatcher) (line : Line) (field : RootField) : Course → Prop
  | down (hd : line.isDown = true) :
      Takes dispatcher line field ⟨[], 0, .outcome .cancelled⟩
  | setupFailed {error : ResolverError} (hd : line.isDown = false)
      (hs : (dispatcher.resolver.feed field).setup.result = some (.error error)) :
      Takes dispatcher line field ⟨[.ofMessage error.text], 0, .outcome .setupFailed⟩
  | setupInterrupted (hd : line.isDown = false)
      (hs : (dispatcher.resolver.feed field).setup.result = none)
      (hi : (line.during (dispatcher.resolver.feed field).setup).isDown = true) :
      Takes dispatcher line field ⟨[], 0, .outcome .cancelled⟩
  | setupStuck (hd : line.isDown = false)
      (hs : (dispatcher.resolver.feed field).setup.result = none)
      (hi : (line.during (dispatcher.resolver.feed field).setup).isDown = false) :
      Takes dispatcher line field ⟨[], 0, .waiting⟩
  | pulled {k : Nat} {halt : Halt} (hd : line.isDown = false)
      (hs : (dispatcher.resolver.feed field).setup.result = some (.ok ()))
      (hh : HaltsAt (line.across (dispatcher.resolver.feed field).setup)
        (dispatcher.resolver.feed field).pulls k halt) :
      Takes dispatcher line field
        ⟨dispatcher.nexts field ((dispatcher.resolver.feed field).pulls.take k) ++
          halt.event?.toList, k + halt.pulls, halt.ending⟩

/-- A line on which some pulls may send, but for the sends before: in the moment of a
pull, or behind them all. -/
inductive Between (line : Line) (moments : List (Moment Pull)) : Line → Prop
  | pull {i : Nat} {moment : Moment Pull} (hm : moments[i]? = some moment) :
      Between line moments ((line.through (moments.take i)).during moment)
  | behind : Between line moments (line.through moments)

/-- A line on which a run may send, but for the sends before: in the moment of the
setup, or on one between the pulls. -/
inductive Passes (dispatcher : Dispatcher) (line : Line) (field : RootField) : Line → Prop
  | setup : Passes dispatcher line field (line.during (dispatcher.resolver.feed field).setup)
  | pulls {passed : Line} (h : Between (line.across (dispatcher.resolver.feed field).setup)
      (dispatcher.resolver.feed field).pulls passed) : Passes dispatcher line field passed

variable {dispatcher : Dispatcher} {line : Line} {field : RootField}

theorem exists_takes (dispatcher : Dispatcher) (line : Line) (field : RootField) :
    ∃ course, dispatcher.Takes line field course := by
  cases hd : line.isDown with
  | true => exact ⟨_, .down hd⟩
  | false =>
    cases hs : (dispatcher.resolver.feed field).setup.result with
    | none =>
      cases hi : (line.during (dispatcher.resolver.feed field).setup).isDown with
      | true => exact ⟨_, .setupInterrupted hd hs hi⟩
      | false => exact ⟨_, .setupStuck hd hs hi⟩
    | some result =>
      cases result with
      | error error => exact ⟨_, .setupFailed hd hs⟩
      | ok =>
        obtain ⟨k, halt, hh⟩ :=
          exists_haltsAt (line.across (dispatcher.resolver.feed field).setup) _
        exact ⟨_, .pulled hd hs hh⟩

namespace Between

variable {moment : Moment Pull} {moments : List (Moment Pull)} {passed : Line}

theorem later (h : Between (line.across moment) moments passed) :
    Between line (moment :: moments) passed := by
  cases h with
  | @pull i _ hm =>
    have hm : (moment :: moments)[i + 1]? = some _ := hm
    exact .pull hm
  | behind => exact .behind

/-- Sends before the pulls are sends before each of their lines. -/
theorem of_afterSends {n : Nat} (h : Between (line.afterSends n) moments passed) :
    ∃ before, Between line moments before ∧ passed = before.afterSends n := by
  cases h with
  | pull hm => exact ⟨_, .pull hm, by rw [Line.through_afterSends, Line.during_afterSends]⟩
  | behind => exact ⟨_, .behind, Line.through_afterSends _ _ _⟩

theorem first : Between line (moment :: moments) (line.during moment) :=
  .pull List.getElem?_cons_zero

end Between

/-! ## Sending -/

/-- An event is sent, if it has a frame, and the run goes on; or the send fails,
and the run does nothing more. -/
theorem emit_cases (dispatcher : Dispatcher) (line : Line) (event : Event)
    (next : Line → Transcript) :
    dispatcher.emit line event next =
        (next (line.afterSends (dispatcher.framing.sent [event]).length)).after
          (dispatcher.framing.sent [event]) ∨
      (dispatcher.emit line event next).CutOff dispatcher.framing [event] line := by
  unfold emit
  cases ht : dispatcher.framing.text? event with
  | none =>
    have hsent : dispatcher.framing.sent [event] = [] := by simp [Framing.sent, ht]
    refine .inl ?_
    simp [hsent, Transcript.after, Line.afterSends]
  | some text =>
    have hsent : dispatcher.framing.sent [event] = [⟨.text text, false⟩] := by
      simp [Framing.sent, ht]
    have hconnection := line.connection.fst_send
    rcases hs : line.connection.send with ⟨connection, _ | error⟩
    · rw [hs] at hconnection
      refine .inl ?_
      simp [hsent, Line.afterSends, ← hconnection]
    · refine .inr ⟨⟨_, [], hsent⟩, error, rfl, ?_⟩
      show (line.connection.afterSends 0).send = (connection, some error)
      rw [Connection.afterSends_zero, hs]

/-- The last event is sent, and the run ends with the outcome; or the send fails. -/
theorem finish_followed (dispatcher : Dispatcher) (line : Line) (event : Event)
    (outcome : Outcome) :
    Course.Followed ⟨[event], 0, .outcome outcome⟩ dispatcher.framing (· = line)
      (dispatcher.finish line event outcome) := by
  rcases dispatcher.emit_cases line event fun line => line.stop (.outcome outcome) with he | hc
  · rw [finish, he]
    exact .inl ⟨by simp [Transcript.after, Line.stop], rfl, rfl⟩
  · exact .inr ⟨line, rfl, hc⟩

/-! ## Pulling -/

theorem nexts_cons {moment : Moment Pull} {value : Json} (hv : moment.value? = some value)
    (moments : List (Moment Pull)) :
    dispatcher.nexts field (moment :: moments) =
      (if (dispatcher.shaper field value).isEmpty then []
        else [.next (dispatcher.shaper field value)]) ++ dispatcher.nexts field moments := by
  rw [nexts, List.filterMap_cons_some hv, List.map_cons, List.filter_cons]
  cases (dispatcher.shaper field value).isEmpty <;> rfl

theorem pull_of_isDown (hd : line.isDown = true) (moments : List (Moment Pull)) :
    dispatcher.pull field line moments = line.stop (.outcome .cancelled) := by
  cases moments <;> rw [pull, if_pos hd]

theorem pull_of_value {moment : Moment Pull} {value : Json} (hd : line.isDown = false)
    (hv : moment.value? = some value) (moments : List (Moment Pull)) :
    dispatcher.pull field line (moment :: moments) = Transcript.afterPull
      (if (dispatcher.shaper field value).isEmpty then
        dispatcher.pull field (line.across moment) moments
      else dispatcher.emit (line.during moment) (.next (dispatcher.shaper field value))
        fun line => dispatcher.pull field (line.behind moment) moments) := by
  have hr : moment.result = some (.value value) := by
    unfold Moment.value? at hv
    split at hv
    · rename_i found hr
      cases hv
      exact hr
    · cases hv
  rw [pull, if_neg (by simp [hd])]
  simp only [hr]
  rfl

/-- A run that is stopped sends its last event, if there is one, and ends. -/
theorem pull_followed_of_stops (dispatcher : Dispatcher) (field : RootField)
    {moments : List (Moment Pull)} {halt : Halt} (hs : halt.Stops line moments[0]?) :
    Course.Followed ⟨halt.event?.toList, halt.pulls, halt.ending⟩ dispatcher.framing
      (Between line moments) (dispatcher.pull field line moments) := by
  cases moments with
  | nil =>
    cases hs with
    | observed hd =>
      rw [pull_of_isDown hd]
      exact .inl ⟨rfl, rfl, rfl⟩
    | behind hd =>
      rw [pull, if_neg (by simp [hd])]
      exact (dispatcher.finish_followed line _ _).afterPull.mono fun _ h => h ▸ .behind
  | cons moment rest =>
    rw [List.getElem?_cons_zero] at hs
    cases hs with
    | observed hd =>
      rw [pull_of_isDown hd]
      exact .inl ⟨rfl, rfl, rfl⟩
    | interrupted hd hr hi =>
      simp only [pull, hd, hr, Line.wait, hi]
      exact .inl ⟨rfl, rfl, rfl⟩
    | failed hd hr =>
      simp only [pull, hd, hr]
      exact (dispatcher.finish_followed _ _ _).afterPull.mono fun _ h => h ▸ .first
    | ended hd hr =>
      simp only [pull, hd, hr]
      exact (dispatcher.finish_followed _ _ _).afterPull.mono fun _ h => h ▸ .first
    | stuck hd hr hi =>
      simp only [pull, hd, hr, Line.wait, hi]
      exact .inl ⟨rfl, rfl, rfl⟩

/-- **The course of the loop**: by induction on the number of pulls that find a
value. -/
theorem pull_followed (dispatcher : Dispatcher) (field : RootField)
    {moments : List (Moment Pull)} {k : Nat} {halt : Halt} (hh : HaltsAt line moments k halt) :
    Course.Followed ⟨dispatcher.nexts field (moments.take k) ++ halt.event?.toList,
      k + halt.pulls, halt.ending⟩ dispatcher.framing (Between line moments)
      (dispatcher.pull field line moments) := by
  induction k generalizing line moments with
  | zero => simpa [nexts] using pull_followed_of_stops dispatcher field (HaltsAt.zero_iff.1 hh)
  | succ k ih =>
    obtain ⟨moment, rest, value, rfl, hd, hv, hh⟩ := HaltsAt.succ_iff.1 hh
    rw [pull_of_value hd hv, List.take_succ_cons, nexts_cons hv, List.append_assoc, Nat.succ_add]
    by_cases he : (dispatcher.shaper field value).isEmpty = true
    · -- an empty response is not sent, and it does not stop the run
      rw [if_pos he, if_pos he, List.nil_append]
      exact (ih hh).afterPull.mono fun _ => .later
    · rw [if_neg he, if_neg he]
      rcases dispatcher.emit_cases (line.during moment) (.next (dispatcher.shaper field value))
        (fun line => dispatcher.pull field (line.behind moment) rest) with hemit | hc
      · -- the loop goes on behind the send, where it halts as on the line before
        rw [hemit, Line.behind_afterSends]
        refine ((ih (hh.afterSends _)).after ?_).afterPull
        intro passed h
        obtain ⟨before, hb, rfl⟩ := h.of_afterSends
        exact ⟨before, hb.later, rfl⟩
      · have hc := hc.append (dispatcher.nexts field (rest.take k) ++ halt.event?.toList)
        exact .inr ⟨_, .first, hc.sent, hc.failed⟩

/-! ## Whole runs -/

theorem dispatch_followed {course : Course} (ht : dispatcher.Takes line field course) :
    course.Followed dispatcher.framing (dispatcher.Passes line field)
      (dispatcher.dispatch line field) := by
  cases ht with
  | down hd =>
    rw [dispatch, if_pos hd]
    exact .inl ⟨rfl, rfl, rfl⟩
  | setupFailed hd hs =>
    simp only [dispatch, follow, hd, hs]
    exact ((dispatcher.finish_followed _ _ _).mono fun _ h => h ▸ .setup).asking _ _
  | setupInterrupted hd hs hi =>
    simp only [dispatch, follow, hd, hs, Line.wait, hi]
    exact .inl ⟨rfl, rfl, rfl⟩
  | setupStuck hd hs hi =>
    simp only [dispatch, follow, hd, hs, Line.wait, hi]
    exact .inl ⟨rfl, rfl, rfl⟩
  | pulled hd hs hh =>
    simp only [dispatch, follow, hd, hs]
    exact ((dispatcher.pull_followed field hh).mono fun _ => .pulls).asking _ _

end Dispatcher

/-- One wait in which nothing else happens. -/
def Moment.quiet {α : Type} (result : α) : Moment α := ⟨false, false, some result, false⟩

/-- A feed with a value that has an empty response, a value, a failure, and a
value that nobody pulls. -/
def failingFeed : Feed :=
  ⟨.quiet (.ok ()), [.quiet (.value .null), .quiet (.value (.string "hi")),
    .quiet (.failed (.message "lost")), .quiet (.value (.string "late"))]⟩

/-- The connection of a recorder, before anything was sent. -/
def freshLine : Line := ⟨.recorder none false 0, false⟩

end GraphQL.Subscription
