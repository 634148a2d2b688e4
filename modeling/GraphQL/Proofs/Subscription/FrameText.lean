import GraphQL.Proofs.Document.RoundTrip
import GraphQL.Proofs.Json.Text
import GraphQL.Proofs.Subscription.Conversation

/-!
# Subscriptions — what a frame tells

A frame shows the event it carries. The type in an envelope is the protocol's
own (`Wired`), and what is lost with it is one thing: outside the older
protocol, errors are sent as the result that has these errors and no data
(`Alike`). Main statement: two events whose frames have one text are equal or
alike in this way, and events that are alike do share their frame.

The frames are compared as values first, shape by shape; that different values
have different texts is a fact about printing (`Json.text_injOn`).
-/

namespace GraphQL

/-! ## Values that encode what they are made of -/

theorem Position.toJson_injective : Function.Injective Position.toJson := by
  intro p q h
  have hp := p.ofJson?_toJson
  rw [h, q.ofJson?_toJson] at hp
  exact (Option.some.inj hp).symm

theorem Diagnostic.toJson_injective : Function.Injective Diagnostic.toJson := by
  rintro ⟨message, locations⟩ ⟨message', locations'⟩ h
  -- a diagnostic without positions has no member for them
  have hm : message = message' ∧
      locations.map Position.toJson = locations'.map Position.toJson := by
    cases locations <;> cases locations' <;> simp_all [toJson]
  rw [hm.1, Position.toJson_injective.list_map hm.2]

theorem Position.isValue_toJson (p : Position) : p.toJson.IsValue := by
  refine .object fun member hm => ?_
  rcases List.mem_cons.1 hm with rfl | hm
  · exact .int _
  · cases List.mem_singleton.1 hm
    exact .int _

theorem Diagnostic.isValue_toJson (d : Diagnostic) : d.toJson.IsValue := by
  refine .object fun member hm => ?_
  rcases List.mem_cons.1 hm with rfl | hm
  · exact .string _
  · split at hm
    · cases hm
    · cases List.mem_singleton.1 hm
      refine .array fun item hi => ?_
      obtain ⟨p, -, rfl⟩ := List.mem_map.1 hi
      exact p.isValue_toJson

theorem Diagnostic.isValue_listToJson (ds : List Diagnostic) :
    (Diagnostic.listToJson ds).IsValue := by
  refine .array fun item hi => ?_
  obtain ⟨d, -, rfl⟩ := List.mem_map.1 hi
  exact d.isValue_toJson

namespace Subscription

theorem Response.toJson_injective : Function.Injective Response.toJson := by
  rintro ⟨data, errors⟩ ⟨data', errors'⟩ h
  cases data <;> cases data' <;> cases errors <;> cases errors' <;> simp_all [toJson]

/-! ## Events that are sent alike -/

/-- The response that has these errors and no data. -/
def Response.ofErrors (errors : List Diagnostic) : Response :=
  ⟨none, some (errors.map Diagnostic.toJson)⟩

/-- An event of errors, and the result that has these errors and no data. -/
inductive Event.Alike : Event → Event → Prop
  | error (errors : List Diagnostic) : Alike (.error errors) (.next (.ofErrors errors))
  | next (errors : List Diagnostic) : Alike (.next (.ofErrors errors)) (.error errors)

theorem Response.ofErrors_injective : Function.Injective Response.ofErrors := by
  intro errors errors' h
  injection h with _ h
  exact Diagnostic.toJson_injective.list_map (Option.some.inj h)

/-! ## Events made of values -/

/-- What the event carries can be printed. -/
inductive Event.IsValue : Event → Prop
  | next {response : Response} (hd : ∀ data ∈ response.data, data.IsValue)
      (he : ∀ errors ∈ response.errors, ∀ error ∈ errors, error.IsValue) : IsValue (.next response)
  | error (errors : List Diagnostic) : IsValue (.error errors)
  | complete : IsValue .complete

theorem Event.IsValue.ofErrors (errors : List Diagnostic) :
    (Event.next (.ofErrors errors)).IsValue := by
  refine .next (fun data h => by cases h) fun list h error he => ?_
  cases h
  obtain ⟨d, -, rfl⟩ := List.mem_map.1 he
  exact d.isValue_toJson

theorem Event.IsValue.toJson {response : Response} (h : (Event.next response).IsValue) :
    response.toJson.IsValue := by
  cases h with
  | next hd he =>
    refine .object fun member hm => ?_
    rcases List.mem_append.1 hm with hm | hm
    · rw [Option.mem_toList, Option.map_eq_some_iff] at hm
      obtain ⟨data, hdata, rfl⟩ := hm
      exact hd data hdata
    · rw [Option.mem_toList, Option.map_eq_some_iff] at hm
      obtain ⟨errors, herrors, rfl⟩ := hm
      exact .array (he errors herrors)

theorem Event.IsValue.payload? {event : Event} (h : event.IsValue) {protocol? : Option Protocol}
    {payload : Json} (hp : Framing.payload? protocol? event = some payload) : payload.IsValue := by
  cases event with
  | next response =>
    cases hp
    exact h.toJson
  | error errors =>
    cases hp
    split
    · exact Diagnostic.isValue_listToJson errors
    · refine .object fun member hm => ?_
      cases List.mem_singleton.1 hm
      exact Diagnostic.isValue_listToJson errors
  | complete => cases hp

/-! ## Payloads -/

namespace Framing

variable {protocol? : Option Protocol} {protocol : Protocol} {e₁ e₂ : Event}

/-- Outside the older protocol, errors are sent as the response they make. -/
theorem payload?_error (h : protocol? ≠ some .ws) (errors : List Diagnostic) :
    payload? protocol? (.error errors) = some (Response.ofErrors errors).toJson := by
  simp only [payload?, if_neg h]
  rfl

/-- Outside the older protocol, payloads tell events apart that are not alike. -/
theorem payload?_eq_iff (h : protocol? ≠ some .ws) :
    payload? protocol? e₁ = payload? protocol? e₂ ↔ e₁ = e₂ ∨ e₁.Alike e₂ := by
  constructor
  · intro he
    cases e₁ with
    | next response =>
      cases e₂ with
      | next response' => exact .inl (congrArg _ (Response.toJson_injective (Option.some.inj he)))
      | error errors =>
        rw [payload?_error h] at he
        cases Response.toJson_injective (Option.some.inj he)
        exact .inr (.next errors)
      | complete => cases he
    | error errors =>
      rw [payload?_error h] at he
      cases e₂ with
      | next response =>
        cases Response.toJson_injective (Option.some.inj he)
        exact .inr (.error errors)
      | error errors' =>
        rw [payload?_error h] at he
        exact .inl (congrArg _ (Response.ofErrors_injective
          (Response.toJson_injective (Option.some.inj he))))
      | complete => cases he
    | complete =>
      cases e₂ with
      | next response => cases he
      | error errors =>
        rw [payload?_error h] at he
        cases he
      | complete => exact .inl rfl
  · rintro (rfl | h' | h')
    · rfl
    · exact payload?_error h _
    · exact (payload?_error h _).symm

end Framing

/-! ## Envelopes -/

theorem FrameKind.name_injective : Function.Injective FrameKind.name := by
  intro kind kind' h
  cases kind <;> cases kind' <;> first | rfl | exact absurd h (by decide)

/-- The type and the payload with which a protocol shows an event. -/
inductive Wired : Protocol → Event → String → Option Json → Prop
  | wsNext (response : Response) : Wired .ws (.next response) "next" (some response.toJson)
  | wsError (errors : List Diagnostic) :
      Wired .ws (.error errors) "error" (some (Diagnostic.listToJson errors))
  | transportNext (response : Response) :
      Wired .transportWs (.next response) "data" (some response.toJson)
  | transportError (errors : List Diagnostic) :
      Wired .transportWs (.error errors) "data" (some (Response.ofErrors errors).toJson)
  | complete (protocol : Protocol) : Wired protocol .complete "complete" none

namespace Framing

variable {protocol : Protocol} {e₁ e₂ : Event}

theorem exists_wired (protocol : Protocol) (event : Event) :
    ∃ kind payload?, Wired protocol event kind payload? := by
  cases event with
  | next response =>
    cases protocol with
    | ws => exact ⟨_, _, .wsNext response⟩
    | transportWs => exact ⟨_, _, .transportNext response⟩
  | error errors =>
    cases protocol with
    | ws => exact ⟨_, _, .wsError errors⟩
    | transportWs => exact ⟨_, _, .transportError errors⟩
  | complete => exact ⟨_, _, .complete protocol⟩

/-- An envelope has a type, the id if there is one, and the payload if there is one. -/
theorem envelope_eq {event : Event} {kind : String} {payload : Option Json}
    (h : Wired protocol event kind payload) (id? : Option String) :
    envelope protocol id? event = ("type", .string kind) ::
      ((id?.map fun id => ("id", .string id)).toList ++
        (payload.map fun payload => ("payload", payload)).toList) := by
  cases h with
  | complete => cases protocol <;> rfl
  | _ => rfl

/-- The type and the payload of an envelope can be read off its members. -/
theorem envelope_inj {id? : Option String}
    (h : envelope protocol id? e₁ = envelope protocol id? e₂) :
    protocol.wireKind e₁.kind = protocol.wireKind e₂.kind ∧
      payload? (some protocol) e₁ = payload? (some protocol) e₂ := by
  injection h with hk hp
  injection hk with _ hk
  injection hk with hk
  rw [List.append_cancel_left_eq] at hp
  refine ⟨FrameKind.name_injective hk, ?_⟩
  cases h₁ : payload? (some protocol) e₁ <;> cases h₂ : payload? (some protocol) e₂ <;>
    simp_all

/-- Under the older protocol the type tells results and errors apart. -/
theorem eq_of_kind_eq (hk : e₁.kind = e₂.kind)
    (hp : payload? (some .ws) e₁ = payload? (some .ws) e₂) : e₁ = e₂ := by
  cases e₁ with
  | next response =>
    cases e₂ with
    | next response' => exact congrArg _ (Response.toJson_injective (Option.some.inj hp))
    | _ => cases hk
  | error errors =>
    cases e₂ with
    | error errors' =>
      injection Option.some.inj hp with hp
      exact congrArg _ (Diagnostic.toJson_injective.list_map hp)
    | _ => cases hk
  | complete =>
    cases e₂ with
    | complete => rfl
    | _ => cases hk

/-- Events that are alike have one type under the newer protocol. -/
theorem wireKind_of_alike (h : e₁.Alike e₂) :
    Protocol.transportWs.wireKind e₁.kind = Protocol.transportWs.wireKind e₂.kind := by
  cases h <;> rfl

/-- Frames tell events apart that are not alike, and under the older protocol all events. -/
theorem frame?_eq_iff (framing : Framing) :
    framing.frame? e₁ = framing.frame? e₂ ↔
      e₁ = e₂ ∨ framing.protocol? ≠ some .ws ∧ e₁.Alike e₂ := by
  obtain ⟨protocol?, id?⟩ := framing
  cases protocol? with
  | none =>
    have hne : (none : Option Protocol) ≠ some .ws := by simp
    rw [and_iff_right hne]
    exact payload?_eq_iff hne
  | some protocol =>
    rw [frame?, frame?, Option.some.injEq, Json.object.injEq]
    cases protocol with
    | ws =>
      constructor
      · intro h
        obtain ⟨hk, hp⟩ := envelope_inj h
        exact .inl (eq_of_kind_eq hk hp)
      · rintro (rfl | ⟨h, -⟩)
        · rfl
        · exact absurd rfl h
    | transportWs =>
      have hne : some Protocol.transportWs ≠ some .ws := by simp
      rw [and_iff_right hne, ← payload?_eq_iff hne]
      constructor
      · exact fun h => (envelope_inj h).2
      · intro hp
        have hk : Protocol.transportWs.wireKind e₁.kind =
            Protocol.transportWs.wireKind e₂.kind := by
          rcases (payload?_eq_iff hne).1 hp with rfl | h
          · rfl
          · exact wireKind_of_alike h
        rw [envelope, envelope, hk, hp]

/-- The frame of an event can be printed if the event is made of values. -/
theorem isValue_of_frame? {framing : Framing} {event : Event} {frame : Json} (h : event.IsValue)
    (hf : framing.frame? event = some frame) : frame.IsValue := by
  rw [frame?] at hf
  cases hp : framing.protocol? with
  | none =>
    rw [hp] at hf
    exact h.payload? hf
  | some protocol =>
    rw [hp] at hf
    cases hf
    refine .object fun member hm => ?_
    rcases List.mem_cons.1 hm with rfl | hm
    · exact .string _
    · rcases List.mem_append.1 hm with hm | hm
      · rw [Option.mem_toList, Option.map_eq_some_iff] at hm
        obtain ⟨id, -, rfl⟩ := hm
        exact .string id
      · rw [Option.mem_toList, Option.map_eq_some_iff] at hm
        obtain ⟨payload, hpayload, rfl⟩ := hm
        exact h.payload? hpayload

theorem text?_eq_iff {framing : Framing} (h₁ : e₁.IsValue) (h₂ : e₂.IsValue) :
    framing.text? e₁ = framing.text? e₂ ↔ framing.frame? e₁ = framing.frame? e₂ := by
  constructor
  · intro h
    rw [text?, text?] at h
    cases hf₁ : framing.frame? e₁ with
    | none =>
      rw [hf₁, Option.map_none] at h
      exact (Option.map_eq_none_iff.1 h.symm).symm
    | some frame =>
      rw [hf₁, Option.map_some, eq_comm, Option.map_eq_some_iff] at h
      obtain ⟨frame', hf₂, ht⟩ := h
      have hframe := Json.text_injOn (isValue_of_frame? h₂ hf₂) (isValue_of_frame? h₁ hf₁) ht
      rw [hf₂, hframe]
  · intro h
    rw [text?, text?, h]

/-- **Frames lose no information beyond the documented mapping.** Two events
have one text only if they are equal, or if they are errors and the result of
these errors outside the older protocol. Only a completion without a protocol
has no message, and an envelope has the type of the protocol, the id if one is
set, and the payload of every event but a completion, in this order. -/
theorem text?_faithful (framing : Framing) :
    (∀ e₁ e₂ : Event, e₁.IsValue → e₂.IsValue →
      (framing.text? e₁ = framing.text? e₂ ↔
        e₁ = e₂ ∨ framing.protocol? ≠ some .ws ∧ e₁.Alike e₂)) ∧
    (∀ event, framing.text? event = none ↔ framing.protocol? = none ∧ event = .complete) ∧
    ∀ protocol, framing.protocol? = some protocol → ∀ event, ∃ kind payload?,
      Wired protocol event kind payload? ∧
      framing.text? event = some (Json.object (("type", .string kind) ::
        ((framing.id?.map fun id => ("id", .string id)).toList ++
          (payload?.map fun payload => ("payload", payload)).toList))).text := by
  refine ⟨fun e₁ e₂ h₁ h₂ => (text?_eq_iff h₁ h₂).trans framing.frame?_eq_iff, fun event => ?_,
    fun protocol h event => ?_⟩
  · rw [framing.text?_eq_none_iff]
    cases event <;> simp [Event.kind]
  · obtain ⟨kind, payload?, hw⟩ := exists_wired protocol event
    refine ⟨kind, payload?, hw, ?_⟩
    rw [text?, frame?, h, ← envelope_eq hw]
    rfl

/-- An error and the response it makes are sent alike by the newer protocol only. -/
theorem late_text?_faithful :
    let late := [Diagnostic.ofMessage "late"]
    (Event.error late).IsValue ∧ (Event.next (.ofErrors late)).IsValue ∧
      (⟨some .transportWs, some "1"⟩ : Framing).text? (.error late) =
        (⟨some .transportWs, some "1"⟩ : Framing).text? (.next (.ofErrors late)) ∧
      (⟨some .ws, some "1"⟩ : Framing).text? (.error late) ≠
        (⟨some .ws, some "1"⟩ : Framing).text? (.next (.ofErrors late)) := by
  intro late
  have he : (Event.error late).IsValue := .error late
  have hn : (Event.next (.ofErrors late)).IsValue := .ofErrors late
  refine ⟨he, hn, ?_, fun h => ?_⟩
  · have alike := (text?_faithful ⟨some .transportWs, some "1"⟩).1 _ _ he hn
    exact alike.2 (.inr ⟨by simp, .error late⟩)
  · rcases ((text?_faithful ⟨some .ws, some "1"⟩).1 _ _ he hn).1 h with h | ⟨h, -⟩
    · cases h
    · exact h rfl

end Framing

end Subscription

end GraphQL
