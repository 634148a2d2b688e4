import GraphQL.Proofs.Subscription.Binding
import GraphQL.Proofs.Subscription.SingleField
import GraphQL.Subscription.Session

/-!
# Subscriptions — requests with other variables

Two requests that differ in their variables only are compared stage by stage. No
stage before the last one looks at a variable, and the last one looks at them for
the values of arguments alone. Main statement: such requests are rejected for the
same reasons or ask for the same root field, whose arguments are the values of the
same literals; and these values are decided by the variables which occur in them.
-/

namespace GraphQL.Subscription

open Validation

/-- The members of two payloads are the same but for the values that they give to
variables. A payload gives none if it has no such member, or `null` there. -/
structure SameButVariables (members other : Record) (values values' : Record) : Prop where
  same : ∀ name, name ≠ "variables" → members.get? name = other.get? name
  given : Request.variableValues? members = .ok values
  given' : Request.variableValues? other = .ok values'

variable {members other values values' : Record}

/-- Neither payload is a request, for the same reason, or they are requests for the same. -/
theorem SameButVariables.ofPayload_cases (h : SameButVariables members other values values') :
    (∃ error, Request.ofPayload (.object members) = .error error ∧
      Request.ofPayload (.object other) = .error error) ∨
    ∃ query name, Request.ofPayload (.object members) = .ok ⟨query, name, values⟩ ∧
      Request.ofPayload (.object other) = .ok ⟨query, name, values'⟩ := by
  have query : Request.query? members = Request.query? other := by
    rw [Request.query?, Request.query?, h.same "query" (by decide)]
  have operationName : Request.operationName? members = Request.operationName? other := by
    rw [Request.operationName?, Request.operationName?, h.same "operationName" (by decide)]
  rw [Request.ofPayload, Request.ofPayload, query, operationName, h.given, h.given']
  cases Request.query? other with
  | error error => exact .inl ⟨error, rfl, rfl⟩
  | ok text =>
    cases Request.operationName? other with
    | error error => exact .inl ⟨error, rfl, rfl⟩
    | ok name => exact .inr ⟨text, name, rfl, rfl⟩

/-- Whether there is a root field, and which field it is made of, is not decided by values. -/
theorem rootField_cases (operation : Operation) (table : FragmentTable) (values values' : Record) :
    (∃ diagnostic, rootField operation table values = .error diagnostic ∧
      rootField operation table values' = .error diagnostic) ∨
    ∃ field, rootField operation table values = .ok (rootOf operation values field) ∧
      rootField operation table values' = .ok (rootOf operation values' field) := by
  by_cases single : SingleKey (AtRoot table operation.selections)
  · obtain ⟨field, hf, hr⟩ := rootField_of_singleKey values single
    obtain ⟨field', hf', hr'⟩ := rootField_of_singleKey values' single
    obtain rfl : field' = field := hf.iff_eq.1 hf'
    exact .inr ⟨field', hr, hr'⟩
  · exact .inl ⟨_, rootField_of_not_singleKey values single,
      rootField_of_not_singleKey values' single⟩

/-- Under values and other values the results are the same diagnostics, or root fields that
are the same but for their arguments; and these are the values of the same literals. -/
inductive SameButArguments (values values' : Record) :
    Except (List Diagnostic) RootField → Except (List Diagnostic) RootField → Prop
  | rejected (errors : List Diagnostic) :
      SameButArguments values values' (.error errors) (.error errors)
  | accepted (name key : String) (operationName : Option String)
      (definitions : List VariableDefinition) (arguments : List Argument) :
      SameButArguments values values'
        (.ok ⟨name, key, argumentValues (environment values definitions) arguments, operationName⟩)
        (.ok ⟨name, key, argumentValues (environment values' definitions) arguments, operationName⟩)

namespace Session

/-- The choice of an operation and its root field, which looks at values last. -/
theorem chooseField_sameButArguments (document : Document) (query : String) (name : Option String)
    (values values' : Record) :
    SameButArguments values values' (chooseField document ⟨query, name, values⟩)
      (chooseField document ⟨query, name, values'⟩) := by
  rw [chooseField, chooseField]
  cases document.select name with
  | error error => exact .rejected _
  | ok operation =>
    show SameButArguments values values' (if _ then _ else _) (if _ then _ else _)
    split
    · rcases rootField_cases operation (.ofDocument document) values values' with
        ⟨diagnostic, he, he'⟩ | ⟨field, hf, hf'⟩
      · rw [he, he']
        exact .rejected _
      · rw [hf, hf']
        exact .accepted _ _ _ _ _
    · exact .rejected _

/-- All stages: the request, the parser and the check are the same for both payloads. -/
theorem prepare_sameButArguments (session : Session)
    (h : SameButVariables members other values values') :
    SameButArguments values values' (session.prepare (.object members))
      (session.prepare (.object other)) := by
  rcases h.ofPayload_cases with ⟨error, he, he'⟩ | ⟨query, name, hr, hr'⟩
  · rw [prepare, prepare, he, he']
    exact .rejected _
  · rw [prepare, prepare, hr, hr']
    show SameButArguments values values' (session.parser query >>= _) (session.parser query >>= _)
    cases session.parser query with
    | error errors => exact .rejected errors
    | ok document =>
      show SameButArguments values values' (if _ then _ else _) (if _ then _ else _)
      split
      · exact chooseField_sameButArguments _ query name values values'
      · exact .rejected _

end Session

/-- **Variables decide the values of arguments and nothing else.** Literals become JSON by the
rules of `Materializes`. A literal, or a list of arguments, has the same value under requests that
agree on the variables in it. And a session treats payloads that differ in their variables alike:
both are rejected for the same reasons, or both ask for the same root field, and the arguments
of the two are the values of the same literals. -/
theorem Session.variables_decide_arguments :
    (∀ values definitions, Materializes values definitions) ∧
    (∀ (values other : Record) (definitions : List VariableDefinition) (literal : Literal),
      (∀ name, literal.Mentions name → values.get? name = other.get? name) →
      literal.value? (environment values definitions) =
        literal.value? (environment other definitions)) ∧
    (∀ (values other : Record) (definitions : List VariableDefinition) (arguments : List Argument),
      (∀ name, ∀ argument ∈ arguments, argument.value.Mentions name →
        values.get? name = other.get? name) →
      argumentValues (environment values definitions) arguments =
        argumentValues (environment other definitions) arguments) ∧
    ∀ (session : Session) (members other values values' : Record),
      SameButVariables members other values values' →
      SameButArguments values values' (session.prepare (.object members))
        (session.prepare (.object other)) :=
  ⟨materializes, fun _ _ => value?_eq_of_agree, fun _ _ definitions _ =>
    argumentValues_eq_of_agree definitions, fun session _ _ _ _ => session.prepare_sameButArguments⟩

/-- The messages of a room, some of them, since some time, with some tags. -/
def messages : FieldSelection :=
  ((((FieldSelection.named "messages").withArgument "room" (.var (.bare "room"))).withArgument
    "limit" (.var (.bare "limit"))).withArgument "since" (.var (.bare "since"))).withArgument
      "tags" (.list [.var (.bare "tag")] .unknown)

/-- A subscription to them that declares defaults for two of its variables. -/
def chat : Operation :=
  (((Operation.ofList .subscription [.field messages]).withVariable "room" none).withVariable
    "limit" (some (.int 10 .unknown))).withVariable "since" (some (.int 5 .unknown))

/-- A session that reads it from every query. -/
def chatting : Session where
  schema := (Schema.empty.withType (.object ((ObjectType.named "Subscription").withField
    (((((FieldDefinition.ofType "messages" (.named "String")).withArgument
      (.ofType "room" (.named "String"))).withArgument
        (.ofType "limit" (.named "Int"))).withArgument
          (.ofType "since" (.named "Int"))).withArgument
            (.ofType "tags" (.list (.named "String"))))))).withBuiltins
  parser _ := .ok ⟨[.operation chat]⟩
  resolver _ := none
  shaper field := .keyed field.responseKey
  configuration := .standard

/-- A payload that gives its variables some values. -/
def chatPayload (values : Record) : Record :=
  [("query", .string "chat"), ("variables", .object values)]

/-- A room, and explicitly no time. -/
def someRoom : Record := [("room", .string "general"), ("since", .null)]

/-- A limit and nothing else. -/
def someLimit : Record := [("limit", .int 20)]

/-- The operation is valid, and what it asks for depends on the values. -/
theorem prepare_chatting (values : Record) :
    chatting.prepare (.object (chatPayload values)) =
      .ok ⟨"messages", "messages",
        argumentValues (environment values chat.variableDefinitions) messages.arguments, none⟩ := by
  have selections : chat.selections = [.field messages] := rfl
  have leaf : messages.selections = [] := rfl
  have findings : documentFindings chatting.schema ⟨[.operation chat]⟩ = [] := by
    simp only [documentFindings_operation, operationFindings, selectionsFindings,
      selectionFindings, selections, leaf]
    rfl
  have checked : chatting.schema.check ⟨[.operation chat]⟩ = [] := by
    rw [Schema.check, Schema.diagnose, Schema.validate, findings]
    rfl
  have normalized : chatting.schema.normalize ⟨[.operation chat]⟩ = ⟨[.operation chat]⟩ := by
    rw [Schema.normalize, Schema.validate, findings]
    rfl
  have request : Request.ofPayload (.object (chatPayload values)) = .ok ⟨"chat", none, values⟩ :=
    rfl
  have collected : rootSelections (.ofDocument ⟨[.operation chat]⟩) [] chat.selections =
      [messages] := by
    simp only [selections, rootSelections]
  rw [Session.prepare, request]
  show (if (chatting.schema.check ⟨[.operation chat]⟩).isEmpty then
    Session.chooseField (chatting.schema.normalize ⟨[.operation chat]⟩) _ else _) = _
  rw [checked, normalized]
  show Except.mapError _ (rootField chat _ values) = _
  rw [rootField, collected]
  rfl

/-- Under the one request a default counts and another gives way to `null`; under the other
the room is left out. A value for a variable that is not used changes nothing. -/
theorem chatting_variables :
    SameButVariables (chatPayload someRoom) (chatPayload someLimit) someRoom someLimit ∧
    SameButArguments someRoom someLimit
      (.ok ⟨"messages", "messages", [("limit", .int 10), ("room", .string "general"),
        ("since", .null), ("tags", .array [.null])], none⟩)
      (.ok ⟨"messages", "messages", [("limit", .int 20), ("since", .int 5),
        ("tags", .array [.null])], none⟩) ∧
    argumentValues (environment (someRoom.put "topic" (.string "news")) chat.variableDefinitions)
      messages.arguments = [("limit", .int 10), ("room", .string "general"), ("since", .null),
        ("tags", .array [.null])] := by
  have payloads : SameButVariables (chatPayload someRoom) (chatPayload someLimit) someRoom
      someLimit := by
    refine ⟨fun name hn => ?_, rfl, rfl⟩
    simp [chatPayload, Record.get?, hn]
  have room : chatting.prepare (.object (chatPayload someRoom)) =
      .ok ⟨"messages", "messages", [("limit", .int 10), ("room", .string "general"),
        ("since", .null), ("tags", .array [.null])], none⟩ := prepare_chatting someRoom
  have limit : chatting.prepare (.object (chatPayload someLimit)) =
      .ok ⟨"messages", "messages", [("limit", .int 20), ("since", .int 5),
        ("tags", .array [.null])], none⟩ := prepare_chatting someLimit
  have unused : ∀ name, ∀ argument ∈ messages.arguments, argument.value.Mentions name →
      (someRoom.put "topic" (.string "news")).get? name = someRoom.get? name := by
    intro name argument ha hn
    rw [Record.get?_put, if_neg]
    rintro rfl
    simp only [messages, FieldSelection.withArgument, FieldSelection.named, List.nil_append,
      List.cons_append, List.mem_cons, List.not_mem_nil, or_false] at ha
    rcases ha with rfl | rfl | rfl | rfl
    · cases hn with | var he => exact absurd he (by decide)
    · cases hn with | var he => exact absurd he (by decide)
    · cases hn with | var he => exact absurd he (by decide)
    · cases hn with
      | item hm h =>
        cases List.mem_singleton.1 hm
        cases h with | var he => exact absurd he (by decide)
  obtain ⟨-, -, agreeing, alike⟩ := Session.variables_decide_arguments
  refine ⟨payloads, ?_, ?_⟩
  · have same := alike chatting _ _ _ _ payloads
    rwa [room, limit] at same
  · rw [agreeing _ _ _ _ unused]
    rfl

end GraphQL.Subscription
