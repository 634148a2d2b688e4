import GraphQL.Proofs.Subscription.Trace

/-!
# Subscriptions — cancellation

A run looks whether it was cancelled before it waits, and not again before it
has dealt with what the wait found. So a cancellation that comes while the run
waits, or while the value that it found is shaped, is seen at the next wait
only: a result of the same moment is still answered, and an error or the end of
the feed still decides how the run ends. Main statement: behind a cancellation a
run does this and nothing else, whenever the cancellation comes. All that can
happen to it there is that its peer goes away.
-/

namespace GraphQL.Subscription

/-- An act that is not among the first ones stands behind them. -/
theorem split_of_not_mem {α : Type} {act : α} {first second before after : List α}
    (h : first ++ second = before ++ act :: after) (hn : act ∉ first) :
    ∃ rest, before = first ++ rest ∧ second = rest ++ act :: after := by
  rcases split_cases h with ⟨rest, rfl, -⟩ | behind
  · exact absurd (by simp) hn
  · exact behind

/-- The acts are no calls of the run, and leave it as cancelled as it was: at most the peer
goes away. -/
def Leaving (acts : List Act) : Prop := ∀ act ∈ acts, act = .leave

theorem leaving_nil : Leaving [] := fun _ ha => absurd ha List.not_mem_nil

theorem Moment.leaving_actsBehind {α : Type} (moment : Moment α) : Leaving moment.actsBehind := by
  intro act ha
  rcases moment.actsBehind_cases with ⟨-, hb⟩ | ⟨-, hb⟩ <;> simp_all

theorem Leaving.append {first second : List Act} (h : Leaving first) (h' : Leaving second) :
    Leaving (first ++ second) :=
  fun act ha => (List.mem_append.1 ha).elim (h act) (h' act)

theorem Leaving.cancel_not_mem {acts : List Act} (h : Leaving acts) : Act.cancel ∉ acts := by
  intro ha
  cases h _ ha

/-- A cancellation behind the start of a moment is that of the moment, before which the
peer may have left, or stands behind what happens in the moment. -/
theorem Moment.cancel_behind_acts {α : Type} (moment : Moment α) (line : Line)
    {acts before after : List Act} (h : moment.acts ++ acts = before ++ .cancel :: after) :
    (moment.cancels = true ∧ before.countP Act.isPull = 0 ∧
        (line.past before).connection = (line.during moment).connection ∧ acts = after) ∨
      ∃ rest, before = moment.acts ++ rest ∧ acts = rest ++ .cancel :: after := by
  by_cases hc : moment.cancels = true
  · let leaving : List Act := if moment.disconnects then [.leave] else []
    have leaves : Leaving leaving := by
      intro act ha
      by_cases hd : moment.disconnects = true <;> simp_all [leaving]
    have hacts : moment.acts = leaving ++ [.cancel] := by simp [Moment.acts, leaving, hc]
    rw [hacts, List.append_assoc] at h
    obtain ⟨rest, rfl, hrest⟩ := split_of_not_mem h leaves.cancel_not_mem
    cases rest with
    | nil =>
      refine .inl ⟨hc, ?_, ?_, by simpa using hrest⟩
      · rw [List.append_nil, List.countP_eq_zero]
        intro act ha
        rw [leaves act ha]
        exact Bool.false_ne_true
      · rw [← line.past_acts moment, hacts]
        simp [Act.on]
    | cons act rest =>
      obtain ⟨rfl, hrest⟩ := List.cons.inj hrest
      exact .inr ⟨rest, by simp [hacts], by simpa using hrest⟩
  · have unmentioned : Act.cancel ∉ moment.acts := by
      intro ha
      rcases moment.mem_acts ha with ha | ⟨-, ha⟩
      · cases ha
      · exact hc ha
    exact .inr (split_of_not_mem h unmentioned)

/-! ## What is left to do -/

/-- A cancelled run answers the result that it has, and stops. -/
structure Dispatcher.Winds (dispatcher : Dispatcher) (line : Line) (reaction : Reaction)
    (trace : Trace) : Prop where
  acts : ∃ behind, Leaving behind ∧ trace.acts = reaction.calls dispatcher.framing ++ behind
  ending : reaction.calls dispatcher.framing = [] ∨ line.connection.send.2 = none →
    trace.ending = .outcome (reaction.outcome?.getD .cancelled)
  failure : ∀ error, reaction.calls dispatcher.framing ≠ [] →
    line.connection.send.2 = some error → trace.ending = .failed error

/-- Nothing more is done on a line that was cancelled. -/
def StopsCancelled (next : Line → Trace) : Prop :=
  ∀ line, line.cancelled = true →
    Leaving (next line).acts ∧ (next line).ending = .outcome .cancelled

theorem Line.isDown_of_cancelled {line : Line} (h : line.cancelled = true) :
    line.isDown = true := by
  simp [isDown, h]

theorem StopsCancelled.onward {α : Type} {next : Line → Trace} (h : StopsCancelled next)
    (moment : Moment α) : StopsCancelled (moment.onward next) := by
  intro line hc
  unfold Moment.onward
  split
  · simp [Line.waitTrace, Line.isDown_of_cancelled hc, leaving_nil]
  · obtain ⟨hacts, hending⟩ := h (line.behind moment) hc
    exact ⟨moment.leaving_actsBehind.append hacts, hending⟩

theorem Reaction.mem_calls {reaction : Reaction} {framing : Framing} {act : Act}
    (h : act ∈ reaction.calls framing) : ∃ text, act = .send text := by
  obtain ⟨text, -, rfl⟩ := List.mem_map.1 h
  exact ⟨text, rfl⟩

theorem Reaction.countP_isPull_calls (reaction : Reaction) (framing : Framing) :
    (reaction.calls framing).countP Act.isPull = 0 := by
  rw [List.countP_eq_zero]
  intro act ha
  obtain ⟨text, rfl⟩ := mem_calls ha
  exact Bool.false_ne_true

/-- The calls of a reaction leave the line as cancelled as it was. -/
theorem Reaction.cancelled_past_calls (reaction : Reaction) (framing : Framing) (line : Line) :
    (line.past (reaction.calls framing)).cancelled = line.cancelled := by
  unfold Reaction.calls
  cases reaction.event?.bind framing.text? <;> rfl

namespace Dispatcher

variable {dispatcher : Dispatcher} {line : Line} {field : RootField} {reaction : Reaction}
  {next : Line → Trace} {before after : List Act}

theorem winds_reactTrace (hc : line.cancelled = true) (hn : StopsCancelled next) :
    dispatcher.Winds line reaction (dispatcher.reactTrace line reaction next) := by
  rcases dispatcher.reactTrace_cases line reaction next with
    ⟨hs, he⟩ | ⟨text, error, hcalls, hs, he⟩
  · have stops : Leaving (reaction.goOn next
          (line.past (reaction.calls dispatcher.framing))).acts ∧
        (reaction.goOn next (line.past (reaction.calls dispatcher.framing))).ending =
          .outcome (reaction.outcome?.getD .cancelled) := by
      unfold Reaction.goOn
      cases reaction.outcome? with
      | some outcome => exact ⟨leaving_nil, rfl⟩
      | none => exact hn _ ((reaction.cancelled_past_calls _ _).trans hc)
    rw [he]
    refine ⟨⟨_, stops.1, rfl⟩, fun _ => stops.2, ?_⟩
    intro error hne herr
    rcases hs with hs | hs
    · exact absurd hs hne
    · rw [hs] at herr
      cases herr
  · rw [he]
    refine ⟨⟨[], leaving_nil, by rw [hcalls, List.append_nil]⟩, ?_, ?_⟩
    · intro h
      simp [hs, hcalls] at h
    · intro other _ ho
      rw [hs] at ho
      cases ho
      rfl

/-- A cancellation behind a reaction comes when the run has gone on. -/
theorem cancel_behind_react
    (h : (dispatcher.reactTrace line reaction next).acts = before ++ .cancel :: after) :
    ∃ rest, before = reaction.calls dispatcher.framing ++ rest ∧ reaction.outcome? = none ∧
      (next (line.past (reaction.calls dispatcher.framing))).acts = rest ++ .cancel :: after ∧
      (dispatcher.reactTrace line reaction next).ending =
        (next (line.past (reaction.calls dispatcher.framing))).ending := by
  have sends : Act.cancel ∉ reaction.calls dispatcher.framing := by
    intro hm
    obtain ⟨text, ht⟩ := Reaction.mem_calls hm
    cases ht
  rcases dispatcher.reactTrace_cases line reaction next with
    ⟨-, he⟩ | ⟨text, error, hcalls, -, he⟩
  · rw [he, Trace.acts_after] at h
    obtain ⟨rest, hb, hr⟩ := split_of_not_mem h sends
    unfold Reaction.goOn at hr he
    cases ho : reaction.outcome? with
    | some outcome => simp [ho] at hr
    | none =>
      rw [ho] at hr he
      exact ⟨rest, hb, rfl, hr, by rw [he]; rfl⟩
  · rw [he] at h
    have hacts : [Act.send text] = before ++ .cancel :: after := h
    rw [hcalls, hacts] at sends
    simp at sends

/-- A cancellation behind the start of a wait comes in its moment, or when the run
has gone on. -/
theorem cancel_behind_moment {α : Type} {moment : Moment α} (hn : StopsCancelled next)
    (h : (dispatcher.momentTrace line moment reaction next).acts = before ++ .cancel :: after) :
    (moment.cancels = true ∧ before.countP Act.isPull = 0 ∧
        dispatcher.Winds (line.past before) reaction
          ⟨after, (dispatcher.momentTrace line moment reaction next).ending⟩) ∨
      ∃ first rest, before = first ++ rest ∧ first.countP Act.isPull = 0 ∧
        (next (line.past first)).acts = rest ++ .cancel :: after ∧
        (dispatcher.momentTrace line moment reaction next).ending =
          (next (line.past first)).ending := by
  rw [momentTrace] at h ⊢
  rcases moment.cancel_behind_acts line h with ⟨hc, hpulls, hline, hafter⟩ | ⟨rest, rfl, hrest⟩
  · have hcancelled : (line.during moment).cancelled = true := by simp [Line.during, hc]
    have winds : dispatcher.Winds (line.during moment) reaction _ :=
      winds_reactTrace hcancelled (hn.onward moment)
    refine .inl ⟨hc, hpulls, ?_⟩
    exact ⟨hafter ▸ winds.acts, hline ▸ winds.ending, hline ▸ winds.failure⟩
  · obtain ⟨rest, rfl, -, hnext, hending⟩ := cancel_behind_react hrest
    -- a wait in vain has no acts behind it, so the wait had a result
    have result : ¬ moment.result.isNone = true := by
      intro hr
      rw [Moment.onward, if_pos hr] at hnext
      simp [Line.waitTrace] at hnext
    rw [Moment.onward, if_neg result] at hnext hending
    obtain ⟨rest, rfl, hlater⟩ := split_of_not_mem hnext moment.leaving_actsBehind.cancel_not_mem
    have hpast : line.past (moment.acts ++ reaction.calls dispatcher.framing ++
        moment.actsBehind) =
          ((line.during moment).past (reaction.calls dispatcher.framing)).behind moment := by simp
    refine .inr ⟨moment.acts ++ reaction.calls dispatcher.framing ++ moment.actsBehind, rest,
      by simp, ?_, hpast ▸ hlater, hpast ▸ hending⟩
    rw [List.countP_append, List.countP_append, Moment.countP_isPull_acts,
      Reaction.countP_isPull_calls, Moment.countP_isPull_actsBehind]

/-! ## Runs -/

theorem stopsCancelled_pullTrace (moments : List (Moment Pull)) :
    StopsCancelled fun line => dispatcher.pullTrace field line moments := by
  intro line hc
  have hd := Line.isDown_of_cancelled hc
  cases moments <;> simp [pullTrace, hd, leaving_nil]

/-- By induction on the pulls: a cancellation comes in the moment of one of them. -/
theorem cancel_behind_pull {moments : List (Moment Pull)}
    (h : (dispatcher.pullTrace field line moments).acts = before ++ .cancel :: after) :
    ∃ n moment, moments[n]? = some moment ∧ moment.cancels = true ∧
      before.countP Act.isPull = n + 1 ∧
      dispatcher.Winds (line.past before) (dispatcher.onPull field moment.result)
        ⟨after, (dispatcher.pullTrace field line moments).ending⟩ := by
  induction moments generalizing line before with
  | nil =>
    rw [pullTrace] at h
    split at h
    · simp at h
    · -- the feed has ended: there is no moment that a cancellation could come in
      obtain ⟨rest, rfl, hrest⟩ := split_of_not_mem h (by simp)
      obtain ⟨rest, -, -, hnext, -⟩ := cancel_behind_react hrest
      simp [Line.waitTrace] at hnext
  | cons moment moments ih =>
    rw [pullTrace] at h ⊢
    by_cases hd : line.isDown = true
    · simp [hd] at h
    rw [if_neg hd] at h ⊢
    obtain ⟨rest, rfl, hrest⟩ := split_of_not_mem h (by simp)
    rcases cancel_behind_moment (dispatcher.stopsCancelled_pullTrace moments) hrest with
      ⟨hc, hcount, winds⟩ | ⟨first, rest, rfl, hcount, hnext, hending⟩
    · refine ⟨0, moment, rfl, hc, ?_, winds⟩
      simp [List.countP_cons, Act.isPull, hcount]
    · obtain ⟨n, later, hm, hc, hpulls, winds⟩ := ih hnext
      refine ⟨n + 1, later, hm, hc, ?_, ?_⟩
      · simp [List.countP_cons, Act.isPull, hcount, hpulls]
      · rw [Trace.ending_after, hending]
        simpa [Act.on] using winds

end Dispatcher

/-- The run is cancelled in a wait, of which the setup is the first. -/
def Feed.cancelsAt (feed : Feed) : Nat → Bool
  | 0 => feed.setup.cancels
  | n + 1 => feed.pulls[n]?.any Moment.cancels

namespace Dispatcher

/-- What a run does about the result of a wait, of which the setup is the first. -/
def reactionAt (dispatcher : Dispatcher) (field : RootField) (feed : Feed) : Nat → Reaction
  | 0 => onSetup feed.setup.result
  | n + 1 => dispatcher.onPull field (feed.pulls[n]?.bind Moment.result)

variable {dispatcher : Dispatcher} {line : Line} {field : RootField} {before after : List Act}

/-- Nobody cancels a run in the setup of a field that is not known, and nothing is pulled. -/
theorem cancelsAt_unknown (field : RootField) (n : Nat) :
    (Feed.unknown field).cancelsAt n = false := by
  cases n <;> rfl

/-- A run is cancelled in one of its waits, and then does what is to be done about the
result of that wait. -/
theorem cancel_behind_dispatch
    (h : (dispatcher.dispatchTrace line field).acts = before ++ .cancel :: after) :
    ∃ feed, dispatcher.resolver field = some feed ∧
      feed.cancelsAt (before.countP Act.isPull) = true ∧
      dispatcher.Winds (line.past before)
        (dispatcher.reactionAt field feed (before.countP Act.isPull))
        ⟨after, (dispatcher.dispatchTrace line field).ending⟩ := by
  rw [dispatchTrace] at h ⊢
  by_cases hd : line.isDown = true
  · simp [hd] at h
  rw [if_neg hd] at h ⊢
  obtain ⟨rest, rfl, hrest⟩ := split_of_not_mem h (by simp)
  have pulls : ([Act.subscribe field (dispatcher.resolver.knows field)] ++ rest).countP Act.isPull =
      rest.countP Act.isPull := rfl
  rw [pulls]
  have waits : (dispatcher.resolver.feed field).cancelsAt (rest.countP Act.isPull) = true ∧
      dispatcher.Winds (line.past rest)
        (dispatcher.reactionAt field (dispatcher.resolver.feed field) (rest.countP Act.isPull))
        ⟨after, (dispatcher.followTrace field line (dispatcher.resolver.feed field)).ending⟩ := by
    rcases cancel_behind_moment
        (dispatcher.stopsCancelled_pullTrace (dispatcher.resolver.feed field).pulls) hrest with
      ⟨hc, hcount, winds⟩ | ⟨first, rest, rfl, hcount, hnext, hending⟩
    · rw [hcount]
      exact ⟨hc, winds⟩
    · obtain ⟨n, moment, hm, hc, hpulls, winds⟩ := cancel_behind_pull hnext
      rw [List.countP_append, hcount, hpulls, Nat.zero_add]
      refine ⟨by simp [Feed.cancelsAt, hm, hc], ?_⟩
      have hending :
          (dispatcher.followTrace field line (dispatcher.resolver.feed field)).ending = _ := hending
      rw [hending, reactionAt, hm]
      simpa using winds
  cases hr : dispatcher.resolver field with
  | none =>
    rw [Resolver.feed, hr, Option.getD_none, cancelsAt_unknown] at waits
    cases waits.1
  | some feed =>
    have hfeed : dispatcher.resolver.feed field = feed := by
      rw [Resolver.feed, hr, Option.getD_some]
    rw [hfeed] at waits ⊢
    exact ⟨feed, rfl, waits⟩

theorem dispatchTrace_of_cancelled (hc : line.cancelled = true) :
    dispatcher.dispatchTrace line field = ⟨[], .outcome .cancelled⟩ := by
  rw [dispatchTrace, if_pos (Line.isDown_of_cancelled hc)]

/-! ## When nothing is left to do -/

/-- Only a completion can go without a frame. -/
theorem exists_calls_of_event {event : Event} {outcome? : Option Outcome}
    (hk : event.kind ≠ .complete) (framing : Framing) :
    ∃ text, Reaction.calls ⟨some event, outcome?⟩ framing = [.send text] := by
  cases ht : framing.text? event with
  | none => exact absurd ((framing.text?_eq_none_iff event).1 ht).2 hk
  | some text => exact ⟨text, by simp [Reaction.calls, ht]⟩

theorem onPull_cases (dispatcher : Dispatcher) (field : RootField) (found : Option Pull) :
    dispatcher.onPull field found = .nothing ∨
      (∃ outcome, (dispatcher.onPull field found).outcome? = some outcome ∧
        outcome ≠ .cancelled) ∨
      ∃ text, (dispatcher.onPull field found).calls dispatcher.framing = [.send text] := by
  cases found with
  | none => exact .inl rfl
  | some pull =>
    cases pull with
    | ended => exact .inr (.inl ⟨_, rfl, by simp⟩)
    | failed error => exact .inr (.inl ⟨_, rfl, by simp⟩)
    | value value =>
      by_cases he : (dispatcher.shaper field value).isEmpty = true
      · exact .inl (by simp [onPull, he])
      · refine .inr (.inr ?_)
        rw [onPull, if_neg he]
        exact exists_calls_of_event (by simp [Event.kind]) dispatcher.framing

/-- A run does nothing about a result, or ends with it, or sends a frame of it. -/
theorem reactionAt_cases (dispatcher : Dispatcher) (field : RootField) (feed : Feed) (n : Nat) :
    dispatcher.reactionAt field feed n = .nothing ∨
      (∃ outcome, (dispatcher.reactionAt field feed n).outcome? = some outcome ∧
        outcome ≠ .cancelled) ∨
      ∃ text, (dispatcher.reactionAt field feed n).calls dispatcher.framing = [.send text] := by
  cases n with
  | zero =>
    rw [reactionAt]
    unfold onSetup
    split
    · exact .inr (.inl ⟨_, rfl, by simp⟩)
    · exact .inl rfl
  | succ n => exact dispatcher.onPull_cases field _

theorem Winds.silent_iff {feed : Feed} {n : Nat} {trace : Trace}
    (h : dispatcher.Winds line (dispatcher.reactionAt field feed n) trace) :
    ((∀ text, Act.send text ∉ trace.acts) ∧ trace.ending = .outcome .cancelled) ↔
      dispatcher.reactionAt field feed n = .nothing := by
  obtain ⟨behind, hleft, hacts⟩ := h.acts
  constructor
  · intro ⟨hsend, hending⟩
    rcases dispatcher.reactionAt_cases field feed n with hn | ⟨outcome, ho, hne⟩ | ⟨text, ht⟩
    · exact hn
    · -- no call is a send, so there is none, and the outcome is that of the result
      have none : (dispatcher.reactionAt field feed n).calls dispatcher.framing = [] := by
        rw [List.eq_nil_iff_forall_not_mem]
        intro act ha
        obtain ⟨text, rfl⟩ := Reaction.mem_calls ha
        exact hsend text (hacts ▸ List.mem_append_left _ ha)
      have hended := h.ending (.inl none)
      rw [hending, ho] at hended
      cases hended
      exact absurd rfl hne
    · exact absurd (by simp [hacts, ht]) (hsend text)
  · intro hn
    have none : (dispatcher.reactionAt field feed n).calls dispatcher.framing = [] := by
      rw [hn]
      rfl
    refine ⟨fun text hm => ?_, ?_⟩
    · rw [hacts, none, List.nil_append] at hm
      cases hleft _ hm
    · rw [h.ending (.inl none), hn]
      rfl

/-- **What a run does behind a cancellation**: a run that starts cancelled does nothing.
A run is cancelled otherwise in the moment of a wait, the setup or a pull, and
then it sends the frame that belongs to the result of this wait, if there is
one, and ends as that result says, or as cancelled if it says nothing; the peer
may go away behind that. Just if there is nothing to be done about the result,
nothing is sent and the run ends as cancelled. (The trace has the cancellation
where its moment begins. Behind one that comes later in the moment, while a value
is shaped or its frame is sent, stands a part of the same.) -/
theorem dispatch_cancelled (dispatcher : Dispatcher) (line : Line) (field : RootField) :
    (dispatcher.dispatchTrace line field).replay line = dispatcher.dispatch line field ∧
      (line.cancelled = true →
        dispatcher.dispatchTrace line field = ⟨[], .outcome .cancelled⟩) ∧
      ∀ before after, (dispatcher.dispatchTrace line field).acts = before ++ .cancel :: after →
        ∃ feed, dispatcher.resolver field = some feed ∧
          feed.cancelsAt (before.countP Act.isPull) = true ∧
          dispatcher.Winds (line.past before)
            (dispatcher.reactionAt field feed (before.countP Act.isPull))
            ⟨after, (dispatcher.dispatch line field).ending⟩ ∧
          (((∀ text, Act.send text ∉ after) ∧
              (dispatcher.dispatch line field).ending = .outcome .cancelled) ↔
            dispatcher.reactionAt field feed (before.countP Act.isPull) = .nothing) := by
  have replayed := dispatcher.replay_dispatchTrace field line
  refine ⟨replayed, dispatchTrace_of_cancelled, ?_⟩
  intro before after h
  obtain ⟨feed, hr, hc, winds⟩ := cancel_behind_dispatch h
  rw [← replayed]
  exact ⟨feed, hr, hc, winds, winds.silent_iff⟩

end Dispatcher

/-- A feed that fails in the moment in which the run is cancelled. -/
def droppedFeed : Feed :=
  ⟨.quiet (.ok ()), [⟨true, false, some (.failed (.message "boom")), false⟩]⟩

/-- A run on the feed, without a sub-protocol. -/
def droppedDispatcher : Dispatcher where
  framing := ⟨none, none⟩
  resolver := fun _ => some droppedFeed
  shaper := fun field value => .keyed field.responseKey value

/-- The failure is sent behind the cancellation, and the run ends with it. -/
theorem droppedDispatcher_answers :
    ∃ text, (droppedDispatcher.dispatchTrace freshLine (.named "count")).acts =
        [.subscribe (.named "count") true, .pull, .cancel, .send text] ∧
      (droppedDispatcher.dispatch freshLine (.named "count")).sent = [⟨.text text, false⟩] ∧
      (droppedDispatcher.dispatch freshLine (.named "count")).ending = .outcome .errored :=
  ⟨_, rfl, rfl, rfl⟩

end GraphQL.Subscription
