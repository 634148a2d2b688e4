import GraphQL.Document.Build
import GraphQL.Proofs.Json.Record
import GraphQL.Proofs.Subscription.Conformance
import GraphQL.Proofs.Subscription.RootNodes
import GraphQL.Proofs.Validation.Coercion
import GraphQL.Subscription.Session

/-!
# Subscriptions — what a prepared root field carries

A session prepares a field only from a document without problems. It looks
for the field in the document that validation leaves, where literals may be
widened, by a collector that knows no types. The field found there is
nevertheless the first one of the document that was checked, with its
arguments widened for the definition that the walk resolved (`PreparedAs`),
and the record of their values fits that definition (`ArgumentsFit`).
-/

namespace GraphQL.Subscription

open Validation

/-! ## Stages that succeed -/

section Stages

variable {ε ε' α β : Type} {x : Except ε α} {a : α} {b : β}

theorem bind_eq_ok {f : α → Except ε β} : x >>= f = .ok b ↔ ∃ a, x = .ok a ∧ f a = .ok b := by
  cases x <;> simp [bind, Except.bind]

theorem mapError_eq_ok {f : ε → ε'} : x.mapError f = .ok a ↔ x = .ok a := by
  cases x <;> simp [Except.mapError]

end Stages

/-- A root field is made from the first of the fields that are collected. -/
theorem rootField_eq_ok {operation : Operation} {table : FragmentTable} {values : Record}
    {root : RootField} (h : rootField operation table values = .ok root) :
    ∃ prepared others, rootSelections table [] operation.selections = prepared :: others ∧
      root = ⟨prepared.name.value, prepared.responseKey,
        argumentValues (environment values operation.variableDefinitions) prepared.arguments,
        operation.name.map Name.value⟩ := by
  unfold rootField at h
  cases hr : rootSelections table [] operation.selections with
  | nil => simp [hr] at h
  | cons prepared others =>
    simp only [hr] at h
    split at h
    · exact ⟨prepared, others, rfl, (Except.ok.inj h).symm⟩
    · cases h

/-- Whatever a session prepares has passed every stage. -/
theorem Session.prepare_eq_ok {session : Session} {payload : Json} {root : RootField}
    (h : session.prepare payload = .ok root) :
    ∃ request document operation, Request.ofPayload payload = .ok request ∧
      session.parser request.query = .ok document ∧ session.schema.check document = [] ∧
      (session.schema.normalize document).select request.operationName = .ok operation ∧
      operation.kind = .subscription ∧
      rootField operation (.ofDocument (session.schema.normalize document))
        request.variableValues = .ok root := by
  unfold Session.prepare at h
  obtain ⟨request, hq, h⟩ := bind_eq_ok.1 h
  obtain ⟨document, hd, h⟩ := bind_eq_ok.1 h
  simp only at h
  split at h
  · rename_i hc
    unfold chooseField at h
    obtain ⟨operation, ho, h⟩ := bind_eq_ok.1 h
    split at h
    · rename_i hk
      exact ⟨request, document, operation, mapError_eq_ok.1 hq, hd, List.isEmpty_iff.1 hc,
        mapError_eq_ok.1 ho, hk, mapError_eq_ok.1 h⟩
    · cases h
  · cases h

/-- The operation that is chosen is one of the document. -/
theorem mem_operations_of_select {document : Document} {name? : Option String}
    {operation : Operation} (h : document.select name? = .ok operation) :
    operation ∈ document.operations := by
  cases name? with
  | some name =>
    rw [Document.select] at h
    split at h
    · rename_i found hf
      cases h
      exact List.mem_of_find?_eq_some hf
    · cases h
  | none =>
    rw [Document.select] at h
    split at h
    · cases h
    · rename_i only hl
      cases h
      rw [hl]
      exact List.mem_singleton.2 rfl
    · cases h

/-! ## The field that is prepared -/

/-- A field as it is prepared: with its arguments widened for a definition. -/
structure PreparedAs (definition : FieldDefinition) (field prepared : FieldSelection) : Prop where
  aliasName : prepared.aliasName = field.aliasName
  name : prepared.name = field.name
  arguments : prepared.arguments = field.arguments.map (widenArgument definition)

variable {schema : Schema} {document : Document} {parent : TypeDefinition}
  {field prepared : FieldSelection} {definition : FieldDefinition}

theorem PreparedAs.responseKey (h : PreparedAs definition field prepared) :
    prepared.responseKey = field.responseKey := by
  rw [FieldSelection.responseKey, h.aliasName, h.name]
  rfl

theorem map_widenArgument_eq_self {arguments : List Argument}
    (h : ∀ argument ∈ arguments, ∀ input,
      definition.arguments.get? argument.name.value = some input →
      widenLiteral input.type argument.value = argument.value) :
    arguments.map (widenArgument definition) = arguments := by
  refine (List.map_congr_left fun argument ha => ?_).trans (List.map_id arguments)
  unfold widenArgument
  split
  · rename_i input hi
    rw [h argument ha input hi]
    rfl
  · rfl

/-- Where nothing is widened, the arguments of a field need no widening. -/
theorem preparedAs_of_not_widened (hs : HasScalars schema)
    (h : (schema.validate document).widened?.isSome = false)
    (hr : Reachable schema document (.field field) parent)
    (hf : schema.field? parent field.name.value = some definition) :
    PreparedAs definition field field := by
  refine ⟨rfl, rfl, (map_widenArgument_eq_self ?_).symm⟩
  intro argument ha input hi
  -- an integer at `Float` would be one that the walk accepts
  apply widenLiteral_eq_self_of_not_leaf
  intro n p path hl
  obtain ⟨d, outer, selections, hw, hm⟩ := reachable_iff_walked.1 hr
  obtain ⟨i, hm⟩ := List.getElem?_of_mem hm
  obtain ⟨j, ha⟩ := List.getElem?_of_mem ha
  have he : ∀ type, schema.type? "Float" ≠ some (.enum type) := by
    intro type ht
    exact (hs.ne_of_type? ht (by simp)).2.1 rfl
  have ha : Accepted schema document ⟨d, outer, i, j, path⟩ n p := .mk hw hm hf ha hi hl he
  rw [isSome_widened?_iff.2 ⟨_, n, p, ha⟩] at h
  cases h

/-- The literal of an argument of a meta-field is a string or a variable. -/
theorem ne_int_of_metaField (hs : HasScalars schema) {literal : Literal}
    (hp : ∀ cause p, .problem cause p ∉
      literalFindings schema (Introspection.always "String") literal) :
    (∀ n p, literal ≠ .int n p) ∧ ∀ items p, literal ≠ .list items p := by
  have hkind : ∀ (hn : ∀ p, literal ≠ .null p) (hv : ∀ v, literal ≠ .var v),
      literal.kindName = "String" := by
    intro hn hv
    obtain ⟨scalar, ht⟩ := hs.string
    have hnamed : ∀ cause p, ¬ NamedFinding schema "String" literal (.problem cause p) :=
      fun cause p hf => hp cause p
        (mem_literalFindings_of_leaf (.nonNull (.named "String" literal)) hv hn hf)
    rcases kindName_of_no_problem (by simp [ht]) hnamed with hk | ⟨hk, -⟩ | ⟨_, _, _, hi, -⟩
    · exact hk
    · exact absurd hk (by decide)
    · cases ht.symm.trans hi
  constructor
  · rintro n p rfl
    exact absurd (hkind (by simp) (by simp)) (by simp [Literal.kindName])
  · rintro items p rfl
    exact absurd (hkind (by simp) (by simp)) (by simp [Literal.kindName])

/-- Where literals are widened, those of a field are widened for the definition
that the walk resolved for it, be it a meta-field or not. -/
theorem preparedAs_of_widened (hs : HasScalars schema)
    (hp : ∀ cause p, .problem cause p ∉ argumentFindings schema parent field definition)
    (hf : schema.field? parent field.name.value = some definition)
    (h : widenSelection schema parent (.field field) = .field prepared) :
    PreparedAs definition field prepared := by
  rw [widenSelection_field] at h
  cases h
  refine ⟨rfl, rfl, ?_⟩
  by_cases hm : IsMeta schema parent field
  · -- widening may know another field of the name, but there is no integer to widen
    have hself : ∀ argument ∈ field.arguments, ∀ type : TypeRef,
        widenLiteral type argument.value = argument.value := by
      intro argument ha type
      obtain ⟨resolved, hr⟩ := Option.isSome_iff_exists.1 hm
      have hd : resolved = definition := by
        rw [Schema.field?, hr, Option.some_or] at hf
        exact Option.some.inj hf
      subst hd
      obtain ⟨input, hi, hl⟩ := exists_input hp ha
      rw [type_of_metaField? hr hi] at hl
      obtain ⟨hint, hlist⟩ := ne_int_of_metaField hs hl
      exact widenLiteral_eq_self type hint hlist
    have hany : ∀ definition : FieldDefinition,
        field.arguments.map (widenArgument definition) = field.arguments :=
      fun definition => map_widenArgument_eq_self fun argument ha input _ => hself argument ha _
    show Option.elim (parent.field? field.name.value) _ _ = _
    rw [hany definition]
    cases parent.field? field.name.value with
    | none => rfl
    | some other => exact hany other
  · rw [field?_of_not_isMeta hm] at hf
    show Option.elim (parent.field? field.name.value) _ _ = _
    rw [hf]
    rfl

/-! ## The collected fields of a rewritten document -/

/-- Nothing needs to be rewritten. -/
theorem rewrites_self (table : FragmentTable) :
    Rewrites schema table table fun _ selection => selection where
  field _ field := ⟨field, rfl⟩
  spread _ _ := rfl
  inline {_ fragment _ _} hd := ⟨fragment, rfl, by simp [hd.eq_enclosed rfl, Selection.enclosed]⟩
  fragment {_ spread _ _} hd := by
    cases hd with
    | conditioned hc =>
      cases hc with
      | spread hf => exact ⟨_, hf, by simp⟩

/-- Widening rewrites what a fragment encloses on the type of the fragment. -/
theorem rewrites_widenSelection :
    Rewrites schema (.ofDocument document) (.ofDocument (widenDocument schema document))
      (widenSelection schema) where
  field parent field := ⟨_, widenSelection_field parent field⟩
  spread := widenSelection_spread
  inline {parent fragment body type} hd := by
    refine ⟨_, widenSelection_inline parent fragment, ?_⟩
    rw [hd.declaredType? rfl (by simp), hd.eq_enclosed rfl]
    exact widenSelections_eq type fragment.selections
  fragment {parent spread body type} hd := by
    cases hd with
    | @conditioned _ _ _ _ fragment _ hc ht =>
      cases hc with
      | spread hf =>
        refine ⟨_, by rw [get?_ofDocument_widenDocument, hf]; rfl, ?_⟩
        show (widenSet schema (schema.type? _) _).selections = _
        rw [ht]
        exact widenSelections_eq type _

/-- A selection made on a type as validation leaves it: widened if the document is. -/
def normalizeSelection (schema : Schema) (document : Document) (parent : TypeDefinition)
    (selection : Selection) : Selection :=
  if (schema.validate document).widened?.isSome then widenSelection schema parent selection
  else selection

theorem normalizeSelection_eq_self (hn : (schema.validate document).widened?.isSome = false) :
    normalizeSelection schema document = fun _ selection => selection := by
  funext parent selection
  simp [normalizeSelection, hn]

theorem normalizeSelection_eq_widenSelection
    (hn : (schema.validate document).widened?.isSome = true) :
    normalizeSelection schema document = widenSelection schema := by
  funext parent selection
  simp [normalizeSelection, hn]

/-- What validation leaves of a document is a rewrite of its selections. -/
theorem rewrites_normalizeSelection :
    Rewrites schema (.ofDocument document) (.ofDocument (schema.normalize document))
      (normalizeSelection schema document) := by
  cases hn : (schema.validate document).widened?.isSome with
  | false =>
    rw [normalize_eq_self hn, normalizeSelection_eq_self hn]
    exact rewrites_self _
  | true =>
    rw [normalize_eq_widenDocument hn, normalizeSelection_eq_widenSelection hn]
    exact rewrites_widenSelection

/-- The operation that is chosen after validation is the one that is chosen
before, with its selections rewritten. -/
theorem exists_written {name? : Option String} {operation : Operation}
    (ho : (schema.normalize document).select name? = .ok operation) :
    ∃ written, document.select name? = .ok written ∧ operation.kind = written.kind ∧
      operation.variableDefinitions = written.variableDefinitions ∧
      ∀ root, schema.rootType? written.kind = some root →
        operation.selections =
          written.selections.map (normalizeSelection schema document root) := by
  cases hn : (schema.validate document).widened?.isSome with
  | false =>
    rw [normalize_eq_self hn] at ho
    refine ⟨operation, ho, rfl, rfl, ?_⟩
    intro root _
    rw [normalizeSelection_eq_self hn, List.map_id']
  | true =>
    rw [normalize_eq_widenDocument hn, select_widenDocument] at ho
    cases hw : document.select name? with
    | error error =>
      rw [hw] at ho
      cases ho
    | ok written =>
      rw [hw] at ho
      cases ho
      refine ⟨written, rfl, rfl, rfl, ?_⟩
      intro root ht
      -- widening types the operation by the root type that the walk has
      show (widenSet schema (schema.rootType? written.kind) written.selectionSet).selections = _
      rw [ht, normalizeSelection_eq_widenSelection hn]
      exact widenSelections_eq root written.selections

/-- Validation leaves a field prepared for the definition that it resolved. -/
theorem preparedAs_of_normalizeSelection (hs : HasScalars schema)
    (hd : (schema.validate document).diagnostics = [])
    (hr : Reachable schema document (.field field) parent)
    (hf : schema.field? parent field.name.value = some definition)
    (h : normalizeSelection schema document parent (.field field) = .field prepared) :
    PreparedAs definition field prepared := by
  cases hn : (schema.validate document).widened?.isSome with
  | false =>
    rw [normalizeSelection_eq_self hn] at h
    cases h
    exact preparedAs_of_not_widened hs hn hr hf
  | true =>
    rw [normalizeSelection_eq_widenSelection hn] at h
    exact preparedAs_of_widened hs (problem_not_mem_argumentFindings hd hr hf) hf h

/-- **The field that is collected is the first one of the checked document**,
with its arguments widened for the definition that the walk resolved. -/
theorem exists_prepared (hs : HasScalars schema) (h : schema.check document = [])
    {name? : Option String} {operation : Operation} {others : List FieldSelection}
    (ho : (schema.normalize document).select name? = .ok operation)
    (hc : rootSelections (.ofDocument (schema.normalize document)) [] operation.selections =
      prepared :: others) :
    ∃ written root first parent definition, document.select name? = .ok written ∧
      operation.kind = written.kind ∧
      operation.variableDefinitions = written.variableDefinitions ∧
      schema.rootType? written.kind = some root ∧
      FirstField schema (.ofDocument document)
        (written.selections.map fun selection => (selection, root)) first parent ∧
      Reachable schema document (.field first) parent ∧
      schema.field? parent first.name.value = some definition ∧
      PreparedAs definition first prepared := by
  obtain ⟨hfragments, hd⟩ := List.append_eq_nil_iff.1 h
  obtain ⟨written, hw, hkind, hvars, hselections⟩ := exists_written ho
  have hm := mem_operations_of_select hw
  obtain ⟨root, ht⟩ := exists_rootType hd hm
  have hroot : ∀ made ∈ written.selections.map fun selection => (selection, root),
      Reachable schema document made.1 made.2 := by
    intro made hmade
    obtain ⟨selection, hs, rfl⟩ := List.mem_map.1 hmade
    exact .root hm ht hs
  have hc : rootSelections (.ofDocument (schema.normalize document)) []
      ((written.selections.map fun selection => (selection, root)).map fun made =>
        normalizeSelection schema document made.2 made.1) = prepared :: others := by
    rw [List.map_map, ← hc, hselections root ht]
    rfl
  obtain ⟨first, parent, hfirst, hr, he⟩ := exists_firstField (passable_of_check h)
    (Document.acyclic_of_fragmentProblems_eq_nil hfragments) rewrites_normalizeSelection
    ⟨hroot, by simp⟩ hc
  obtain ⟨definition, hf⟩ := exists_definition hd hr
  exact ⟨written, root, first, parent, definition, hw, hkind, hvars, ht, hfirst, hr, hf,
    preparedAs_of_normalizeSelection hs hd hr hf he⟩

/-! ## The record of its arguments -/

/-- A record of argument values fits a definition. It has only declared
arguments, with values that were written for them, and the required ones were
written. Every closed literal has a value that conforms to its declared type,
and the record holds it unless a later argument gives the name another value. -/
structure ArgumentsFit (schema : Schema) (env : String → Option Json)
    (definition : FieldDefinition) (arguments : List Argument) (values : Record) : Prop where
  declared : ∀ member ∈ values, ∃ input, definition.arguments.get? member.1 = some input
  written : ∀ member ∈ values, ∃ argument ∈ arguments, argument.name.value = member.1 ∧
    (widenArgument definition argument).value.value? env = some member.2
  required : ∀ declared ∈ definition.arguments.entries, declared.2.isRequired = true →
    ∃ argument ∈ arguments, argument.name.value = declared.1
  conforms : ∀ before argument after, arguments = before ++ argument :: after →
    argument.value.isClosed = true →
    ∃ input value, definition.arguments.get? argument.name.value = some input ∧
      (widenArgument definition argument).value.value? env = some value ∧
      Conforms schema input.type argument.value value ∧
      ((∀ other ∈ after, other.name.value = argument.name.value →
          (widenArgument definition other).value.value? env = none) →
        values.get? argument.name.value = some value)

variable {env : String → Option Json}

/-- The members of a record are the values of arguments. -/
theorem mem_argumentValues {arguments : List Argument} {member : String × Json}
    (h : member ∈ argumentValues env arguments) :
    ∃ argument ∈ arguments, argument.name.value = member.1 ∧
      argument.value.value? env = some member.2 := by
  obtain ⟨argument, ha, hm⟩ := List.mem_filterMap.1 (Record.mem_of_mem_ofList h)
  obtain ⟨value, hv, rfl⟩ := Option.map_eq_some_iff.1 hm
  exact ⟨argument, ha, rfl, hv⟩

/-- The record holds a value behind which its name has no other. -/
theorem get?_argumentValues (before : List Argument) {argument : Argument} {after : List Argument}
    {value : Json} (hv : argument.value.value? env = some value)
    (h : ∀ other ∈ after, other.name.value = argument.name.value →
      other.value.value? env = none) :
    (argumentValues env (before ++ argument :: after)).get? argument.name.value = some value := by
  rw [argumentValues, List.filterMap_append, List.filterMap_cons_some (by rw [hv]; rfl)]
  apply Record.get?_ofList_of_last
  intro hm
  obtain ⟨member, hm, hn⟩ := List.mem_map.1 hm
  obtain ⟨other, ho, hm⟩ := List.mem_filterMap.1 hm
  obtain ⟨_, hv, rfl⟩ := Option.map_eq_some_iff.1 hm
  rw [h other ho hn] at hv
  cases hv

theorem name_widenArgument (definition : FieldDefinition) (argument : Argument) :
    (widenArgument definition argument).name = argument.name := by
  unfold widenArgument
  split <;> rfl

/-- **The arguments of a field without problems fit its definition.** -/
theorem argumentsFit (hs : HasScalars schema)
    (hp : ∀ cause p, .problem cause p ∉ argumentFindings schema parent field definition) :
    ArgumentsFit schema env definition field.arguments
      (argumentValues env (field.arguments.map (widenArgument definition))) where
  declared member hm := by
    obtain ⟨prepared, ha, hn, -⟩ := mem_argumentValues hm
    obtain ⟨argument, hw, rfl⟩ := List.mem_map.1 ha
    obtain ⟨input, hi, -⟩ := exists_input hp hw
    rw [name_widenArgument] at hn
    exact ⟨input, hn ▸ hi⟩
  written member hm := by
    obtain ⟨prepared, ha, hn, hv⟩ := mem_argumentValues hm
    obtain ⟨argument, hw, rfl⟩ := List.mem_map.1 ha
    rw [name_widenArgument] at hn
    exact ⟨argument, hw, hn, hv⟩
  required declared hd hr := exists_argument hp hd hr
  conforms before argument after he hc := by
    have ha : argument ∈ field.arguments := he ▸ List.mem_append_right _ List.mem_cons_self
    obtain ⟨input, hi, hl⟩ := exists_input hp ha
    obtain ⟨value, hv, hcon, -⟩ := @conforms_of_no_problem schema env _ hs _ hc hl
    have hv : (widenArgument definition argument).value.value? env = some value := by
      simpa [widenArgument, hi] using hv
    refine ⟨input, value, hi, hv, hcon, fun hlast => ?_⟩
    rw [he, List.map_append, List.map_cons, ← name_widenArgument definition argument]
    refine get?_argumentValues _ hv ?_
    intro prepared ho hn
    obtain ⟨other, ho', rfl⟩ := List.mem_map.1 ho
    rw [name_widenArgument, name_widenArgument] at hn
    exact hlast other ho' hn

/-! ## Sessions -/

/-- A payload chooses the first field of the subscription that it asks for, and
the definition that is resolved for it on the type where it is met. -/
inductive Session.Chooses (session : Session) (payload : Json) (request : Request)
    (operation : Operation) (first : FieldSelection) (definition : FieldDefinition) : Prop
  | mk {document : Document} {root parent : TypeDefinition}
      (hq : Request.ofPayload payload = .ok request)
      (hd : session.parser request.query = .ok document)
      (ho : document.select request.operationName = .ok operation)
      (hk : operation.kind = .subscription)
      (ht : session.schema.rootType? .subscription = some root)
      (hf : FirstField session.schema (.ofDocument document)
        (operation.selections.map fun selection => (selection, root)) first parent)
      (hdef : session.schema.field? parent first.name.value = some definition)

variable {session : Session} {payload : Json} {request : Request} {operation : Operation}
  {first : FieldSelection}

/-- What a payload chooses is determined. -/
theorem Session.Chooses.unique {request' : Request} {operation' : Operation}
    {first' : FieldSelection} {definition' : FieldDefinition}
    (h : session.Chooses payload request operation first definition)
    (h' : session.Chooses payload request' operation' first' definition') :
    request' = request ∧ operation' = operation ∧ first' = first ∧ definition' = definition := by
  obtain ⟨hq, hd, ho, hk, ht, hf, hdef⟩ := h
  obtain ⟨hq', hd', ho', hk', ht', hf', hdef'⟩ := h'
  cases hq.symm.trans hq'
  cases hd.symm.trans hd'
  cases ho.symm.trans ho'
  cases ht.symm.trans ht'
  obtain ⟨rfl, rfl⟩ := hf.unique hf'
  cases hdef.symm.trans hdef'
  exact ⟨rfl, rfl, rfl, rfl⟩

/-- **The resolver gets arguments that fit.** Whatever a session prepares is the
field that the payload chooses, under its response key, with the values of its
widened arguments, and these fit the definition of the field. -/
theorem Session.prepared_arguments_fit {root : RootField} (hs : HasScalars session.schema)
    (h : session.prepare payload = .ok root) :
    ∃ request operation first definition,
      session.Chooses payload request operation first definition ∧
      root.name = first.name.value ∧ root.responseKey = first.responseKey ∧
      root.arguments = argumentValues
        (environment request.variableValues operation.variableDefinitions)
        (first.arguments.map (widenArgument definition)) ∧
      ArgumentsFit session.schema
        (environment request.variableValues operation.variableDefinitions)
        definition first.arguments root.arguments := by
  obtain ⟨request, document, operation, hq, hd, hc, ho, hk, h⟩ := Session.prepare_eq_ok h
  obtain ⟨prepared, others, hcollect, rfl⟩ := rootField_eq_ok h
  obtain ⟨written, root, first, parent, definition, hw, hkind, hvars, ht, hf, hr, hdef, hp⟩ :=
    exists_prepared hs hc ho hcollect
  rw [hk] at hkind
  rw [← hkind] at ht
  refine ⟨request, written, first, definition, .mk hq hd hw hkind.symm ht hf hdef, ?_,
    hp.responseKey, ?_, ?_⟩
  · exact congrArg Name.value hp.name
  · rw [hp.arguments, hvars]
  · rw [hp.arguments, hvars]
    have hd := (List.append_eq_nil_iff.1 hc).2
    exact argumentsFit hs (problem_not_mem_argumentFindings hd hr hdef)

/-- A subscription to the readings above a limit. -/
def reading : FieldDefinition :=
  ((FieldDefinition.ofType "reading" (.named "Float")).withArgument
    (.ofType "above" (.nonNull (.named "Float")))).withArgument (.ofType "unit" (.named "Unit"))

/-- The type with nothing but that subscription. -/
def subscriptions : TypeDefinition := .object ((ObjectType.named "Subscription").withField reading)

/-- A schema with that type. -/
def readings : Schema :=
  ((Schema.empty.withType (.enum (.ofList "Unit" ["KELVIN", "CELSIUS"]))).withType
    subscriptions).withBuiltins

/-- The readings above a limit in kelvin. -/
def readingAbove (limit : Literal) : FieldSelection :=
  ((FieldSelection.named "reading").withArgument "above" limit).withArgument "unit"
    (.enum (.bare "KELVIN"))

/-- A document that subscribes to them through a fragment. -/
def watch (limit : Literal) : Document :=
  ⟨[.operation (.ofList .subscription [.spread (.named "Watch")]),
    .fragment (.ofList "Watch" "Subscription" [.field (readingAbove limit)])]⟩

/-- A session that reads the document from every query, with an integer for the limit. -/
def watching : Session :=
  ⟨readings, fun _ => .ok (watch (.int 300 .unknown)), fun _ => none,
    fun field => .keyed field.responseKey, .standard⟩

/-- A payload with nothing but a query. -/
def watchPayload : Json := .object [("query", .string "watch")]

/-- What is prepared for it when the limit is a float. -/
def preparedReading (x : Float) : RootField :=
  ⟨"reading", "reading", [("above", .ofFloat x), ("unit", .string "KELVIN")], none⟩

theorem rootField_watch (x : Float) :
    rootField (.ofList .subscription [.spread (.named "Watch")])
      (.ofDocument (watch (.float x .unknown))) [] = .ok (preparedReading x) := by
  have collected : rootSelections (.ofDocument (watch (.float x .unknown))) []
      (Operation.ofList .subscription [.spread (.named "Watch")]).selections =
      [readingAbove (.float x .unknown)] := by cbv
  have record : ∀ value, Record.ofList [("above", value), ("unit", .string "KELVIN")] =
      [("above", value), ("unit", .string "KELVIN")] := by
    intro value
    have other : "unit" ≠ "above" := by decide
    have after : ¬ "unit" < "above" := by decide
    simp only [Record.ofList, List.foldl_cons, List.foldl_nil, Record.put, if_neg other,
      if_neg after]
  rw [preparedReading, ← record (.ofFloat x), rootField, collected]
  rfl

/-- The integer is checked, widened and prepared. -/
theorem prepare_watching :
    watching.prepare watchPayload = .ok (preparedReading (Float.ofInt (300 : Int64).toInt)) := by
  have found : documentFindings readings (watch (.int 300 .unknown)) =
      [.coercion 300 .unknown] := by
    have operations : (watch (.int 300 .unknown)).operations =
        [.ofList .subscription [.spread (.named "Watch")]] := rfl
    have body : bodyOf (.ofDocument (watch (.int 300 .unknown))) (.spread (.named "Watch")) =
        [.field (readingAbove (.int 300 .unknown))] := rfl
    simp only [documentFindings, operations, List.flatMap_singleton, operationFindings,
      Operation.selections_ofList, selectionsFindings, selectionFindings_eq, inside, body]
    rfl
  have checked : readings.check (watch (.int 300 .unknown)) = [] := by
    have sound : (watch (.int 300 .unknown)).fragmentProblems = [] :=
      FragmentTable.cycles_cons_of_leaf rfl [] []
    rw [Schema.check, sound, Schema.diagnose, Schema.validate, found]
    rfl
  have normalized : readings.normalize (watch (.int 300 .unknown)) =
      watch (.float (Float.ofInt (300 : Int64).toInt) .unknown) := by
    rw [Schema.normalize, Schema.validate, found]
    rfl
  have request : Request.ofPayload watchPayload = .ok ⟨"watch", none, []⟩ := rfl
  rw [Session.prepare, request]
  show (if (readings.check (watch (.int 300 .unknown))).isEmpty then
    Session.chooseField (readings.normalize (watch (.int 300 .unknown))) _ else _) = _
  rw [checked, normalized]
  exact mapError_eq_ok.2 (rootField_watch _)

/-- Below a spread, an integer for the required float reaches the resolver as a float. -/
theorem watching_arguments_fit :
    HasScalars watching.schema ∧ ∃ root, watching.prepare watchPayload = .ok root ∧
      ArgumentsFit readings (environment [] []) reading (readingAbove (.int 300 .unknown)).arguments
        root.arguments ∧
      ∃ x, root.arguments.get? "above" = some (.float x) := by
  have scalars : HasScalars watching.schema := ⟨⟨_, rfl⟩, ⟨_, rfl⟩, ⟨_, rfl⟩, ⟨_, rfl⟩⟩
  have chosen : watching.Chooses watchPayload ⟨"watch", none, []⟩
      (.ofList .subscription [.spread (.named "Watch")]) (readingAbove (.int 300 .unknown))
      reading := by
    have defined : (FragmentTable.ofDocument (watch (.int 300 .unknown))).get? "Watch" =
        some (.ofList "Watch" "Subscription" [.field (readingAbove (.int 300 .unknown))]) := rfl
    have spread := @Conditioned.spread _ (.named "Watch") _ defined
    have passes : Descends readings (.ofDocument (watch (.int 300 .unknown))) subscriptions
        (.spread (.named "Watch")) [.field (readingAbove (.int 300 .unknown))] subscriptions :=
      .conditioned spread rfl (admits_of_ne_union (by nofun))
    exact .mk rfl rfl rfl rfl rfl (.fragment (by simp) passes .field) rfl
  obtain ⟨request, operation, first, definition, hc, -, -, -, fit⟩ :=
    Session.prepared_arguments_fit scalars prepare_watching
  obtain ⟨rfl, rfl, rfl, rfl⟩ := chosen.unique hc
  refine ⟨scalars, _, prepare_watching, fit, ?_⟩
  obtain ⟨input, value, hi, -, conforms, hlast⟩ := fit.conforms [] _ _ rfl rfl
  cases hi
  obtain ⟨-, ⟨p, hnull, -⟩ | named⟩ := conforms
  · cases hnull
  · obtain ⟨x, rfl⟩ := named.float rfl
    exact ⟨x, hlast (by simp [Name.bare])⟩

end GraphQL.Subscription
