import GraphQL.Proofs.Subscription.Trace

/-!
# Subscriptions — writes that fail

A run is compared with the run on a line where nothing goes wrong
(`Line.reliable`): its peer stays, and no write to it fails. Up to the first
send that fails both make the same calls, and behind it the run makes none
(`Trace.Keeps`). Main statement: a send that fails is the last act of a run,
which ends with the error; what was sent before is what the reliable run sends
up to there. A close is called by runs only that were the reliable run to the
end, and they end like it whether the close fails or not.
-/

namespace GraphQL.Subscription

/-! ## Lines without failure -/

/-- The peer stays, and no write fails. -/
def Connection.Reliable (connection : Connection) : Prop :=
  ∃ sends, connection = .recorder none false sends

/-- The line with a connection that nothing goes wrong with. -/
def Line.reliable (line : Line) : Line := ⟨.recorder none false 0, line.cancelled⟩

/-- The second line is as cancelled as the first, and reliable. -/
structure Line.Steady (line free : Line) : Prop where
  cancelled : free.cancelled = line.cancelled
  connection : free.connection.Reliable

theorem Line.steady_reliable (line : Line) : line.Steady line.reliable :=
  ⟨rfl, 0, rfl⟩

namespace Line.Steady

variable {line free : Line}

theorem send_eq_none (h : line.Steady free) : free.connection.send.2 = none := by
  obtain ⟨sends, hf⟩ := h.connection
  rw [hf]
  rfl

theorem during {α : Type} (h : line.Steady free) (moment : Moment α) :
    (line.during moment).Steady (free.during moment) := by
  obtain ⟨sends, hf⟩ := h.connection
  refine ⟨by simp [Line.during, h.cancelled], sends, ?_⟩
  simp [Line.during, hf, Connection.disconnected]

theorem behind {α : Type} (h : line.Steady free) (moment : Moment α) :
    (line.behind moment).Steady (free.behind moment) := by
  obtain ⟨sends, hf⟩ := h.connection
  refine ⟨h.cancelled, sends, ?_⟩
  simp [Line.behind, hf, Connection.disconnected]

/-- A reliable line is down if it was cancelled, and not otherwise. -/
theorem isDown_eq (h : line.Steady free) : free.isDown = line.cancelled := by
  obtain ⟨sends, hf⟩ := h.connection
  simp [isDown, hf, h.cancelled, Connection.isGone]

theorem past_calls (h : line.Steady free) (reaction : Reaction) (framing : Framing) :
    (line.past (reaction.calls framing)).Steady (free.past (reaction.calls framing)) := by
  unfold Reaction.calls
  cases reaction.event?.bind framing.text? with
  | none => exact h
  | some text =>
    obtain ⟨sends, hf⟩ := h.connection
    refine ⟨h.cancelled, sends + 1, ?_⟩
    simp [Act.on, hf, Connection.send]

end Line.Steady

/-! ## Acts that succeed -/

/-- The act is a send that does not fail, or no write at all. -/
def Act.Succeeds (line : Line) : Act → Prop
  | .send _ => line.connection.send.2 = none
  | .close _ _ => False
  | _ => True

/-- The message of a send. -/
def Act.frame? : Act → Option Sent
  | .send text => some ⟨.text text, false⟩
  | _ => none

namespace Line

/-- Nothing fails on the way, and nothing is closed. -/
def Delivers (line : Line) : List Act → Prop
  | [] => True
  | act :: acts => act.Succeeds line ∧ (act.on line).Delivers acts

@[simp] theorem delivers_nil (line : Line) : line.Delivers [] := trivial

@[simp] theorem delivers_append {line : Line} {first second : List Act} :
    line.Delivers (first ++ second) ↔ line.Delivers first ∧ (line.past first).Delivers second := by
  induction first generalizing line with
  | nil => simp
  | cons act acts ih => simp [Delivers, ih, and_assoc]

namespace Delivers

variable {line : Line} {acts before after : List Act}

/-- All frames reach the peer. -/
theorem sent_eq (h : line.Delivers acts) : line.sent acts = acts.filterMap Act.frame? := by
  induction acts generalizing line with
  | nil => rfl
  | cons act acts ih =>
    obtain ⟨hact, hacts⟩ := h
    rw [Line.sent, ih hacts]
    cases act with
    | send text =>
      have hs : line.connection.send.2 = none := hact
      simp [Act.sent, Act.frame?, hs]
    | close code reason => cases hact
    | _ => rfl

theorem send_eq_none {text : String} (h : line.Delivers (before ++ .send text :: after)) :
    (line.past before).connection.send.2 = none :=
  (delivers_append.1 h).2.1

theorem close_not_mem (h : line.Delivers acts) (code : UInt16) (reason : String) :
    Act.close code reason ∉ acts := by
  intro hm
  obtain ⟨before, after, rfl⟩ := List.append_of_mem hm
  exact (delivers_append.1 h).2.1

end Delivers

theorem delivers_acts {α : Type} (line : Line) (moment : Moment α) :
    line.Delivers moment.acts := by
  unfold Moment.acts
  by_cases hd : moment.disconnects = true <;> by_cases hc : moment.cancels = true <;>
    simp [hd, hc, Delivers, Act.Succeeds]

theorem delivers_actsBehind {α : Type} (line : Line) (moment : Moment α) :
    line.Delivers moment.actsBehind := by
  rcases moment.actsBehind_cases with ⟨-, ha⟩ | ⟨-, ha⟩ <;> simp [ha, Delivers, Act.Succeeds]

theorem delivers_calls (line : Line) {reaction : Reaction} {framing : Framing}
    (h : reaction.calls framing = [] ∨ line.connection.send.2 = none) :
    line.Delivers (reaction.calls framing) := by
  rcases h with h | h
  · rw [h]
    trivial
  · unfold Reaction.calls
    cases reaction.event?.bind framing.text? with
    | none => trivial
    | some text => exact ⟨h, trivial⟩

end Line

/-! ## Keeping to the reliable run -/

/-- A trace on a line is that of the reliable run, or breaks off: at a send that fails,
or because the peer has gone. -/
inductive Trace.Keeps (line : Line) (free : Trace) : Trace → Prop
  | whole (hd : line.Delivers free.acts) (hu : ∀ error, free.ending ≠ .failed error) :
      Keeps line free free
  | failed {before rest : List Act} {text : String} {error : TransportError}
      (hd : line.Delivers before) (hf : free.acts = before ++ .send text :: rest)
      (he : (line.past before).connection.send.2 = some error) :
      Keeps line free ⟨before ++ [.send text], .failed error⟩
  | left {acts rest : List Act} (hd : line.Delivers acts) (hf : free.acts = acts ++ rest)
      (hg : (line.past acts).connection.isGone = true) :
      Keeps line free ⟨acts, .outcome .cancelled⟩

namespace Trace.Keeps

variable {line : Line} {free trace : Trace}

theorem after {acts : List Act} (h : free.Keeps (line.past acts) trace) (hd : line.Delivers acts) :
    (free.after acts).Keeps line (trace.after acts) := by
  cases h with
  | whole hw hu => exact .whole (Line.delivers_append.2 ⟨hd, hw⟩) hu
  | @failed before rest text error hb hf he =>
    have hacts : (free.after acts).acts = (acts ++ before) ++ .send text :: rest := by
      simp [hf]
    have hcut := Keeps.failed (Line.delivers_append.2 ⟨hd, hb⟩) hacts (by simpa using he)
    simpa [Trace.after] using hcut
  | @left before rest hb hf hg =>
    have hacts : (free.after acts).acts = (acts ++ before) ++ rest := by simp [hf]
    exact .left (Line.delivers_append.2 ⟨hd, hb⟩) hacts (by simpa using hg)

/-- A run that ends at once. -/
theorem stopped (line : Line) (outcome : Outcome) :
    Trace.Keeps line ⟨[], .outcome outcome⟩ ⟨[], .outcome outcome⟩ :=
  .whole trivial (by simp)

/-- The peer has gone before the run calls anything. -/
theorem gone {line : Line} (hg : line.connection.isGone = true) (free : Trace) :
    free.Keeps line ⟨[], .outcome .cancelled⟩ := by
  have delivers : line.Delivers [] := trivial
  exact .left delivers rfl hg

/-- A send that fails is the last act, and the reliable run makes it too. -/
theorem failing {before after : List Act} {text : String} {error : TransportError}
    (h : free.Keeps line trace) (ht : trace.acts = before ++ .send text :: after)
    (he : (line.past before).connection.send.2 = some error) :
    after = [] ∧ trace.ending = .failed error ∧ line.Delivers before ∧
      ∃ rest, free.acts = before ++ .send text :: rest := by
  cases h with
  | whole hd hu =>
    rw [ht] at hd
    cases hd.send_eq_none.symm.trans he
  | left hd hf hg =>
    subst ht
    cases hd.send_eq_none.symm.trans he
  | @failed before₀ rest text₀ error₀ hd hf he₀ =>
    -- the failing send is no other than the last, because the ones before succeed
    have ht : before₀ ++ [Act.send text₀] = before ++ .send text :: after := ht
    rcases split_cases ht with ⟨middle, rfl, -⟩ | ⟨middle, rfl, hmiddle⟩
    · cases hd.send_eq_none.symm.trans he
    · cases middle with
      | nil =>
        cases hmiddle
        rw [List.append_nil] at he ⊢
        rw [he₀] at he
        cases he
        exact ⟨rfl, rfl, hd, rest, hf⟩
      | cons act middle => simp at hmiddle

/-- Nothing is closed on the way. -/
theorem close_not_mem (h : free.Keeps line trace) (code : UInt16) (reason : String) :
    Act.close code reason ∉ trace.acts := by
  cases h with
  | whole hd hu => exact hd.close_not_mem code reason
  | failed hd hf he => simpa using hd.close_not_mem code reason
  | left hd hf hg => exact hd.close_not_mem code reason

end Trace.Keeps

namespace Dispatcher

variable {dispatcher : Dispatcher} {line free : Line} {field : RootField}

theorem keeps_reactTrace {next : Line → Trace} (hs : line.Steady free) (reaction : Reaction)
    (hn : ∀ line free : Line, line.Steady free → (next free).Keeps line (next line)) :
    (dispatcher.reactTrace free reaction next).Keeps line
      (dispatcher.reactTrace line reaction next) := by
  have goes : ∀ line free : Line, line.Steady free →
      (reaction.goOn next free).Keeps line (reaction.goOn next line) := by
    intro line free hs
    unfold Reaction.goOn
    cases reaction.outcome? with
    | some outcome => exact .stopped line outcome
    | none => exact hn line free hs
  rcases dispatcher.reactTrace_cases free reaction next with
    ⟨-, hfree⟩ | ⟨text, error, -, he, -⟩
  · rw [hfree]
    rcases dispatcher.reactTrace_cases line reaction next with
      ⟨hsend, hline⟩ | ⟨text, error, hcalls, he, hline⟩
    · rw [hline]
      exact (goes _ _ (hs.past_calls reaction dispatcher.framing)).after
        (line.delivers_calls hsend)
    · rw [hline, hcalls]
      have delivers : line.Delivers [] := trivial
      exact Trace.Keeps.failed delivers rfl he
  · cases hs.send_eq_none.symm.trans he

theorem keeps_waitTrace (hs : line.Steady free) : free.waitTrace.Keeps line line.waitTrace := by
  unfold Line.waitTrace
  rw [hs.isDown_eq]
  cases hc : line.cancelled with
  | true => simpa [Line.isDown, hc] using Trace.Keeps.stopped line .cancelled
  | false =>
    cases hg : line.connection.isGone with
    | true => simpa [Line.isDown, hc, hg] using Trace.Keeps.gone hg _
    | false =>
      have waits : Trace.Keeps line ⟨[], .waiting⟩ ⟨[], .waiting⟩ := .whole trivial (by simp)
      simpa [Line.isDown, hc, hg] using waits

theorem keeps_momentTrace {α : Type} {next : Line → Trace} (hs : line.Steady free)
    (moment : Moment α) (reaction : Reaction)
    (hn : ∀ line free : Line, line.Steady free → (next free).Keeps line (next line)) :
    (dispatcher.momentTrace free moment reaction next).Keeps line
      (dispatcher.momentTrace line moment reaction next) := by
  unfold momentTrace
  refine Trace.Keeps.after ?_ (line.delivers_acts moment)
  rw [Line.past_acts]
  refine keeps_reactTrace (hs.during moment) reaction ?_
  intro line free hs
  unfold Moment.onward
  split
  · exact keeps_waitTrace hs
  · refine Trace.Keeps.after ?_ (line.delivers_actsBehind moment)
    rw [Line.past_actsBehind]
    exact hn _ _ (hs.behind moment)

/-- A run that looks whether its line is down: the peer may have gone where the reliable
run goes on. -/
theorem keeps_of_not_isDown {rest freeRest : Trace} (hs : line.Steady free)
    (h : line.isDown = false → freeRest.Keeps line rest) :
    Trace.Keeps line (if free.isDown then ⟨[], .outcome .cancelled⟩ else freeRest)
      (if line.isDown then ⟨[], .outcome .cancelled⟩ else rest) := by
  rw [hs.isDown_eq]
  cases hc : line.cancelled with
  | true => simpa [Line.isDown, hc] using Trace.Keeps.stopped line .cancelled
  | false =>
    cases hg : line.connection.isGone with
    | true => simpa [Line.isDown, hc, hg] using Trace.Keeps.gone hg _
    | false => simpa [Line.isDown, hc, hg] using h (by simp [Line.isDown, hc, hg])

/-- By induction on the pulls: each goes as on the reliable line, unless the run is
stopped or the send fails. -/
theorem keeps_pullTrace (hs : line.Steady free) (moments : List (Moment Pull)) :
    (dispatcher.pullTrace field free moments).Keeps line
      (dispatcher.pullTrace field line moments) := by
  have pulls : ∀ line : Line, line.Delivers [.pull] := fun _ => ⟨trivial, trivial⟩
  induction moments generalizing line free with
  | nil =>
    rw [pullTrace, pullTrace]
    refine keeps_of_not_isDown hs fun _ => ?_
    refine Trace.Keeps.after ?_ (pulls line)
    exact keeps_reactTrace hs _ fun _ _ => keeps_waitTrace
  | cons moment moments ih =>
    rw [pullTrace, pullTrace]
    refine keeps_of_not_isDown hs fun _ => ?_
    refine Trace.Keeps.after ?_ (pulls line)
    exact keeps_momentTrace hs moment _ fun _ _ => ih

theorem keeps_finishTrace (hs : line.Steady free) (event : Event) (outcome : Outcome) :
    (dispatcher.finishTrace free event outcome).Keeps line
      (dispatcher.finishTrace line event outcome) :=
  keeps_reactTrace hs _ fun _ _ => keeps_waitTrace

theorem keeps_dispatchTrace (hs : line.Steady free) :
    (dispatcher.dispatchTrace free field).Keeps line (dispatcher.dispatchTrace line field) := by
  rw [dispatchTrace, dispatchTrace]
  refine keeps_of_not_isDown hs fun _ => ?_
  refine Trace.Keeps.after ?_ ⟨trivial, trivial⟩
  exact keeps_momentTrace hs _ _ fun _ _ hs => keeps_pullTrace hs _

end Dispatcher

/-! ## Which send fails -/

theorem Connection.Reliable.act {line : Line} (h : line.connection.Reliable) (act : Act) :
    (act.on line).connection.Reliable := by
  obtain ⟨sends, hr⟩ := h
  cases act with
  | send text => exact ⟨sends + 1, by simp [Act.on, hr, Connection.send]⟩
  | leave => exact ⟨sends, by simp [Act.on, hr, Connection.disconnected]⟩
  | _ => exact ⟨sends, hr⟩

/-- On a reliable line everything is delivered. -/
theorem Line.delivers_of_reliable {line : Line} {acts : List Act}
    (h : line.connection.Reliable) (hc : ∀ code reason, Act.close code reason ∉ acts) :
    line.Delivers acts := by
  induction acts generalizing line with
  | nil => trivial
  | cons act acts ih =>
    have later : ∀ code reason, Act.close code reason ∉ acts :=
      fun code reason hm => hc code reason (List.mem_cons_of_mem act hm)
    refine ⟨?_, ih (h.act act) later⟩
    cases act with
    | send text =>
      obtain ⟨sends, hr⟩ := h
      simp [Act.Succeeds, hr, Connection.send]
    | close code reason => exact absurd List.mem_cons_self (hc code reason)
    | _ => trivial

/-- A recorder counts the sends. -/
theorem Line.connection_past_recorder {line : Line} {failSendAt : Option Nat} {failClose : Bool}
    {sends : Nat} (h : line.connection = .recorder failSendAt failClose sends) (acts : List Act) :
    (line.past acts).connection =
      .recorder failSendAt failClose (sends + acts.countP Act.isSend) := by
  induction acts generalizing line sends with
  | nil => exact h
  | cons act acts ih =>
    rw [past_cons, List.countP_cons]
    cases act with
    | send text =>
      have hc : (Act.on line (.send text)).connection =
          .recorder failSendAt failClose (sends + 1) := by simp [Act.on, h, Connection.send]
      rw [ih hc, Nat.add_assoc, Nat.add_comm 1]
      rfl
    | leave =>
      have hc : (Act.on line .leave).connection = .recorder failSendAt failClose sends := by
        simp [Act.on, h, Connection.disconnected]
      exact ih hc
    | _ => exact ih h

/-- One act of a list is the send with a number. -/
theorem send_unique {before after before' after' : List Act} {text text' : String}
    (h : before ++ .send text :: after = before' ++ .send text' :: after')
    (hn : before.countP Act.isSend = before'.countP Act.isSend) :
    before = before' ∧ text = text' := by
  rcases split_cases h with ⟨middle, rfl, -⟩ | ⟨middle, rfl, hmiddle⟩
  · simp [List.countP_cons, Act.isSend] at hn
  · cases middle with
    | nil => simp_all
    | cons act middle =>
      obtain ⟨rfl, -⟩ := List.cons.inj hmiddle
      simp [List.countP_cons, Act.isSend] at hn

theorem length_frames (acts : List Act) :
    (acts.filterMap Act.frame?).length = acts.countP Act.isSend := by
  induction acts with
  | nil => rfl
  | cons act acts ih =>
    cases act with
    | send text => simp [Act.frame?, Act.isSend, List.countP_cons, ih]
    | _ => exact ih

/-- The number of a recorder's send that fails picks one of the sends that the reliable
run makes. -/
theorem Trace.Keeps.recorder {line : Line} {free trace : Trace} (h : free.Keeps line trace)
    {before rest : List Act} {text : String} {failClose : Bool} {sends : Nat}
    (hc : line.connection =
      .recorder (some (sends + before.countP Act.isSend + 1)) failClose sends)
    (hf : free.acts = before ++ .send text :: rest) : trace.acts = before ++ [.send text] := by
  -- a send behind another number of sends does not fail
  have fails : ∀ acts, (line.past acts).connection.send.2 = none ∨
      acts.countP Act.isSend = before.countP Act.isSend := by
    intro acts
    rw [Line.connection_past_recorder hc, Connection.send]
    by_cases hn : acts.countP Act.isSend = before.countP Act.isSend
    · exact .inr hn
    · refine .inl (if_neg ?_)
      simp only [Option.some.injEq]
      omega
  cases h with
  | whole hd hu =>
    rw [hf] at hd
    have delivered := hd.send_eq_none
    rw [Line.connection_past_recorder hc, Connection.send] at delivered
    simp at delivered
  | @failed before₀ rest₀ text₀ error hd hf₀ he =>
    rcases fails before₀ with hn | hn
    · cases hn.symm.trans he
    · obtain ⟨rfl, rfl⟩ := send_unique (hf₀.symm.trans hf) hn
      rfl
  | left hd hf₀ hg =>
    rw [Line.connection_past_recorder hc] at hg
    cases hg

/-! ## Whole requests -/

namespace Session

/-- A session adds a close, if the run ended with a last event. -/
theorem concludeTrace_eq (configuration : Configuration) (trace : Trace) :
    ∃ closing, concludeTrace configuration trace = ⟨trace.acts ++ closing, trace.ending⟩ ∧
      (closing = [] ∨ closing = [.close configuration.closeCode configuration.closeReason] ∧
        ∃ outcome, trace.ending = .outcome outcome ∧ outcome ≠ .cancelled) := by
  obtain ⟨acts, ending⟩ := trace
  unfold concludeTrace
  cases configuration.protocol? with
  | some protocol => exact ⟨[], by simp, .inl rfl⟩
  | none =>
    cases ending with
    | failed error => exact ⟨[], by simp, .inl rfl⟩
    | waiting => exact ⟨[], by simp, .inl rfl⟩
    | outcome outcome =>
      by_cases ht : outcome.isTerminal = true
      · refine ⟨_, if_pos ht, .inr ⟨rfl, outcome, rfl, ?_⟩⟩
        rintro rfl
        cases ht
      · exact ⟨[], by simp [ht], .inl rfl⟩

/-- The close of a session is no send. -/
theorem send_before_closing {configuration : Configuration} {ending : Ending}
    {acts closing before after : List Act} {text : String}
    (h : acts ++ closing = before ++ .send text :: after)
    (hc : closing = [] ∨
      closing = [.close configuration.closeCode configuration.closeReason] ∧
        ∃ outcome, ending = .outcome outcome ∧ outcome ≠ .cancelled) :
    ∃ rest, acts = before ++ .send text :: rest := by
  rcases hc with rfl | ⟨rfl, -⟩
  · exact ⟨after, by simpa using h⟩
  · rcases split_cases h with ⟨rest, rfl, -⟩ | ⟨rest, -, hrest⟩
    · exact ⟨rest, rfl⟩
    · cases rest <;> simp at hrest

/-- The run of a request keeps to the reliable run, before anything is closed. -/
theorem exists_keeps (session : Session) (line : Line) (id? : Option String) (payload : Json) :
    ∃ free trace : Trace, free.Keeps line trace ∧
      session.trace line.reliable id? payload = concludeTrace session.configuration free ∧
      session.trace line id? payload = concludeTrace session.configuration trace := by
  unfold Session.trace
  cases session.prepare payload with
  | ok field => exact ⟨_, _, Dispatcher.keeps_dispatchTrace line.steady_reliable, rfl, rfl⟩
  | error errors => exact ⟨_, _, Dispatcher.keeps_finishTrace line.steady_reliable _ _, rfl, rfl⟩

/-- The run of a request is cut short by a send that fails behind some acts. -/
structure CutShort (session : Session) (line : Line) (id? : Option String) (payload : Json)
    (before : List Act) (text : String) (error : TransportError) : Prop where
  /-- The send is the last act. -/
  acts : (session.trace line id? payload).acts = before ++ [.send text]
  ending : (session.run line id? payload).ending = .failed error
  unclosed : ∀ code reason, Act.close code reason ∉ (session.trace line id? payload).acts
  /-- The reliable run makes the same calls, and goes on behind the send. -/
  reliable : ∃ rest,
    (session.trace line.reliable id? payload).acts = before ++ .send text :: rest
  sent : (session.run line id? payload).sent =
    (session.run line.reliable id? payload).sent.take (before.countP Act.isSend)

variable {session : Session} {line : Line} {id? : Option String} {payload : Json}

theorem cutShort {before after : List Act} {text : String} {error : TransportError}
    (ht : (session.trace line id? payload).acts = before ++ .send text :: after)
    (he : (line.past before).connection.send.2 = some error) :
    session.CutShort line id? payload before text error := by
  obtain ⟨free, trace, keeps, hfree, htrace⟩ := session.exists_keeps line id? payload
  obtain ⟨closing, hconclude, hclosing⟩ := concludeTrace_eq session.configuration trace
  obtain ⟨closing', hconclude', -⟩ := concludeTrace_eq session.configuration free
  rw [htrace, hconclude] at ht
  obtain ⟨rest, hrest⟩ := send_before_closing ht hclosing
  obtain ⟨rfl, hending, hd, rest', hfreeActs⟩ := keeps.failing hrest he
  -- a session closes behind an outcome only, and this run has none
  have hnil : closing = [] := by
    rcases hclosing with h | ⟨-, outcome, ho, -⟩
    · exact h
    · cases hending.symm.trans ho
  have hacts : (session.trace line id? payload).acts = before ++ [.send text] := by
    rw [htrace, hconclude, hnil, hrest]
    simp
  have hreliable : (session.trace line.reliable id? payload).acts =
      before ++ .send text :: (rest' ++ closing') := by
    rw [hfree, hconclude', hfreeActs]
    simp
  refine ⟨hacts, ?_, ?_, ⟨_, hreliable⟩, ?_⟩
  · rw [← replay_trace]
    show (session.trace line id? payload).ending = _
    rw [htrace, hconclude]
    exact hending
  · intro code reason
    rw [hacts, List.mem_append]
    simpa using hd.close_not_mem code reason
  · rw [← replay_trace, ← replay_trace]
    show line.sent (session.trace line id? payload).acts =
      (line.reliable.sent (session.trace line.reliable id? payload).acts).take _
    have delivers : line.reliable.Delivers before :=
      Line.delivers_of_reliable line.steady_reliable.connection hd.close_not_mem
    rw [hacts, hreliable, Line.sent_append, Line.sent_append, hd.sent_eq, delivers.sent_eq,
      List.take_left' (length_frames before)]
    simp [Line.sent, Act.sent, he]

/-- Nothing is closed but behind a run that went like the reliable one. -/
theorem trace_eq_of_close {code : UInt16} {reason : String}
    (h : Act.close code reason ∈ (session.trace line id? payload).acts) :
    session.trace line id? payload = session.trace line.reliable id? payload ∧
      ∃ outcome, (session.trace line id? payload).ending = .outcome outcome ∧
        outcome ≠ .cancelled := by
  obtain ⟨free, trace, keeps, hfree, htrace⟩ := session.exists_keeps line id? payload
  obtain ⟨closing, hconclude, hclosing⟩ := concludeTrace_eq session.configuration trace
  rw [htrace, hconclude, List.mem_append] at h
  have closed : ∃ outcome, trace.ending = .outcome outcome ∧ outcome ≠ .cancelled := by
    rcases hclosing with rfl | ⟨-, ho⟩
    · exact absurd (h.resolve_left (keeps.close_not_mem code reason)) List.not_mem_nil
    · exact ho
  refine ⟨?_, by rwa [htrace, hconclude]⟩
  obtain ⟨outcome, ho, hne⟩ := closed
  -- a run that broke off has no outcome, or `cancelled`, which is not closed behind
  cases keeps with
  | whole hd hu => rw [htrace, hfree]
  | failed hd hf he => cases ho
  | left hd hf hg =>
    cases ho
    exact absurd rfl hne

/-- The reliable run is a run without failure. -/
theorem unfailed_reliable (session : Session) (line : Line) (id? : Option String)
    (payload : Json) : (session.run line.reliable id? payload).Unfailed := by
  obtain ⟨free, trace, keeps, hfree, htrace⟩ := session.exists_keeps line.reliable id? payload
  obtain ⟨closing, hconclude, -⟩ := concludeTrace_eq session.configuration trace
  intro error h
  rw [← replay_trace] at h
  have h : (session.trace line.reliable id? payload).ending = .failed error := h
  rw [htrace, hconclude] at h
  cases keeps with
  | whole hd hu => exact hu error h
  | @failed before rest text _ hd hf he =>
    obtain ⟨sends, hr⟩ := (Line.steady_reliable line).connection
    rw [Line.connection_past_recorder hr] at he
    simp [Connection.send] at he
  | left hd hf hg => cases h

/-- **Failing writes**: where a send of a run fails, the run is cut short. The send is
the last act, so that nothing is pulled, sent or closed behind it, the run ends with
the error, and the peer got just what the run on a reliable line, which never fails,
sends up to there. A recorder that is to fail the send with some number fails that of
the reliable run. And a run that comes to a close is the reliable run act by act, and
ends with the same outcome, whether the close fails or not. -/
theorem run_cutShort (session : Session) (line : Line) (id? : Option String) (payload : Json) :
    (session.trace line id? payload).replay line = session.run line id? payload ∧
      (session.run line.reliable id? payload).Unfailed ∧
      (∀ before text after error,
        (session.trace line id? payload).acts = before ++ .send text :: after →
        (line.past before).connection.send.2 = some error →
          session.CutShort line id? payload before text error) ∧
      (∀ before text rest failClose sends,
        (session.trace line.reliable id? payload).acts = before ++ .send text :: rest →
        line.connection =
          .recorder (some (sends + before.countP Act.isSend + 1)) failClose sends →
          session.CutShort line id? payload before text
            (.send s!"frame {sends + before.countP Act.isSend + 1}")) ∧
      ∀ code reason, Act.close code reason ∈ (session.trace line id? payload).acts →
        session.trace line id? payload = session.trace line.reliable id? payload ∧
          ∃ outcome, (session.run line id? payload).ending = .outcome outcome ∧
            (session.run line.reliable id? payload).ending = .outcome outcome := by
  refine ⟨session.replay_trace line id? payload, session.unfailed_reliable line id? payload,
    ?_, ?_, ?_⟩
  · intro before text after error ht he
    exact cutShort ht he
  · intro before text rest failClose sends hf hc
    obtain ⟨free, trace, keeps, hfree, htrace⟩ := session.exists_keeps line id? payload
    obtain ⟨closing, hconclude, hclosing⟩ := concludeTrace_eq session.configuration free
    obtain ⟨closing', hconclude', -⟩ := concludeTrace_eq session.configuration trace
    rw [hfree, hconclude] at hf
    obtain ⟨rest', hrest⟩ := send_before_closing hf hclosing
    have hacts : (session.trace line id? payload).acts = before ++ .send text :: closing' := by
      rw [htrace, hconclude', keeps.recorder hc hrest]
      simp
    refine cutShort hacts ?_
    rw [Line.connection_past_recorder hc]
    simp [Connection.send]
  · intro code reason h
    obtain ⟨same, outcome, ho, -⟩ := trace_eq_of_close h
    refine ⟨same, outcome, ?_, ?_⟩
    · rw [← replay_trace]
      exact ho
    · rw [← replay_trace, ← same]
      exact ho

end Session

/-- The line of a recorder that fails the second send and every close. -/
def secondLost : Line := ⟨.recorder (some 2) true 0, false⟩

/-- The first reading is sent, the second is lost, and the failure behind it is not pulled. -/
theorem losing_cutShort :
    ∃ before text, before.countP Act.isSend = 1 ∧ before.countP Act.isPull = 2 ∧
      losing.CutShort secondLost none watchPayload before text (.send "frame 2") := by
  have calls : ∃ first second rest,
      (losing.trace secondLost.reliable none watchPayload).acts =
        [.subscribe (preparedReading (.ofInt (300 : Int64).toInt)) true, .pull, .send first,
          .pull] ++ .send second :: rest := by
    rw [Session.trace, losing_accepts.prepare_eq]
    exact ⟨_, _, _, rfl⟩
  obtain ⟨first, second, rest, hacts⟩ := calls
  have cut := (Session.run_cutShort losing secondLost none watchPayload).2.2.2.1
    _ second rest true 0 hacts rfl
  have number : toString "frame " ++ toString 2 = "frame 2" := by decide
  exact ⟨_, second, rfl, rfl, number ▸ cut⟩

end GraphQL.Subscription
