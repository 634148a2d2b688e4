import GraphQL.Document.Build
import GraphQL.Proofs.Validation.Diagnostics
import GraphQL.Proofs.Validation.Widening
import Mathlib.Data.List.Induction

/-!
# Validation — which accepted integers are widened

The walk and the rewrite type a literal in two ways. The walk follows spreads
and resolves meta-fields (`Walked`); widening types every definition by
itself and knows declared fields only (`FloatDeclared`). Both agree inside a
definition until a meta-field is passed: below `__schema` and `__type` the
walk accepts integers as floats that widening leaves alone, unless a type
declares a field of that name.
-/

namespace GraphQL

/-- The index of the first fragment definition with a name. -/
def Document.fragmentIndex? (document : Document) (name : String) : Option Nat :=
  document.definitions.findIdx? fun definition =>
    definition.fragment?.any fun fragment => fragment.name.value == name

/-- The table finds the fragment at the index of its name. -/
theorem Document.get?_ofDocument_eq_some_iff {document : Document} {name : String}
    {fragment : FragmentDefinition} :
    (FragmentTable.ofDocument document).get? name = some fragment ↔
      ∃ k, document.fragmentIndex? name = some k ∧
        document.definitions[k]? = some (.fragment fragment) := by
  obtain ⟨definitions⟩ := document
  simp only [FragmentTable.ofDocument, FragmentTable.get?, fragments, fragmentIndex?]
  induction definitions with
  | nil => simp
  | cons definition definitions ih =>
    -- a definition that is passed over shifts the index by one
    have skip : ∀ {first : Definition}, (∃ k, (definitions.findIdx? fun definition =>
          definition.fragment?.any fun fragment => fragment.name.value == name) = some k ∧
          definitions[k]? = some (.fragment fragment)) ↔
        ∃ k, ((definitions.findIdx? fun definition => definition.fragment?.any
          fun fragment => fragment.name.value == name).map (· + 1)) = some k ∧
          (first :: definitions)[k]? = some (.fragment fragment) := by
      intro first
      constructor
      · rintro ⟨k, hk, hd⟩
        exact ⟨k + 1, by rw [hk]; rfl, hd⟩
      · rintro ⟨k, hk, hd⟩
        obtain ⟨j, hj, rfl⟩ := Option.map_eq_some_iff.1 hk
        exact ⟨j, hj, hd⟩
    cases definition with
    | operation operation =>
      rw [List.filterMap_cons_none rfl, ih, List.findIdx?_cons]
      exact skip
    | fragment first =>
      rw [List.findIdx?_cons]
      by_cases hn : first.name.value = name
      · simp [hn, Definition.fragment?]
      · simp only [List.filterMap_cons, List.find?_cons, beq_eq_false_iff_ne.2 hn,
          Definition.fragment?, Option.any_some, Bool.false_eq_true, if_false]
        rw [ih]
        exact skip

namespace Validation

open Relation

/-! ## The walk over places -/

/-- The walk looks at the selections at a depth of a definition, made on a
type. A spread leads to the first definition of its name. -/
inductive Walked (schema : Schema) (document : Document) :
    Nat → List Nat → List Selection → TypeDefinition → Prop
  | root {d : Nat} {operation : Operation} {root : TypeDefinition}
      (hd : document.definitions[d]? = some (.operation operation))
      (hr : schema.rootType? operation.kind = some root) :
      Walked schema document d [] operation.selections root
  | written {d i : Nat} {path : List Nat} {selections body : List Selection}
      {selection : Selection} {parent type : TypeDefinition}
      (h : Walked schema document d path selections parent)
      (hi : selections[i]? = some selection) (hs : spreadName? selection = none)
      (hb : Descends schema (.ofDocument document) parent selection body type) :
      Walked schema document d (path ++ [i]) body type
  | spread {d k : Nat} {path : List Nat} {selections body : List Selection}
      {spread : FragmentSpread} {parent type : TypeDefinition}
      (h : Walked schema document d path selections parent)
      (hi : .spread spread ∈ selections) (hk : document.fragmentIndex? spread.name.value = some k)
      (hb : Descends schema (.ofDocument document) parent (.spread spread) body type) :
      Walked schema document k [] body type

variable {schema : Schema} {document : Document} {d : Nat} {path : List Nat}
  {selections : List Selection} {parent : TypeDefinition}

/-- A spread leads to the selections of the definition with its index. -/
theorem Descends.of_spread {spread : FragmentSpread} {body : List Selection}
    {type : TypeDefinition} {k : Nat}
    (hb : Descends schema (.ofDocument document) parent (.spread spread) body type)
    (hk : document.fragmentIndex? spread.name.value = some k) :
    ∃ fragment, document.definitions[k]? = some (.fragment fragment) ∧
      body = fragment.selections ∧ schema.type? fragment.typeCondition.value = some type := by
  cases hb with
  | conditioned hc ht =>
    cases hc with
    | spread hf =>
      obtain ⟨k', hk', hd⟩ := Document.get?_ofDocument_eq_some_iff.1 hf
      cases hk.symm.trans hk'
      exact ⟨_, hd, rfl, ht⟩

/-- Below any other selection are the selections that it encloses. -/
theorem Descends.eq_enclosed {table : FragmentTable} {selection : Selection}
    {body : List Selection} {type : TypeDefinition}
    (hb : Descends schema table parent selection body type) (hs : spreadName? selection = none) :
    body = selection.enclosed := by
  cases hb with
  | field => rfl
  | bare => rfl
  | conditioned hc =>
    cases hc with
    | inline => rfl
    | spread => cases hs

/-- What the walk looks at is written at the place. -/
theorem Walked.selectionsAt? (h : Walked schema document d path selections parent) :
    document.selectionsAt? d path = some selections := by
  induction h with
  | root hd => simp [Document.selectionsAt?, hd, Definition.selections]
  | written _ hi hs hb ih =>
    obtain ⟨definition, hd, hl⟩ := Option.bind_eq_some_iff.1 ih
    simp [Document.selectionsAt?, hd, Selection.listAt?_append, hl, hi, hb.eq_enclosed hs]
  | spread _ _ hk hb =>
    obtain ⟨fragment, hd, rfl, -⟩ := hb.of_spread hk
    simp [Document.selectionsAt?, hd, Definition.selections]

/-- The reachable pairs are the selections at the places of the walk. -/
theorem reachable_iff_walked {selection : Selection} :
    Reachable schema document selection parent ↔
      ∃ d path selections, Walked schema document d path selections parent ∧
        selection ∈ selections := by
  constructor
  · intro h
    induction h with
    | root ho hr hs =>
      obtain ⟨definition, hd, ho⟩ := List.mem_filterMap.1 ho
      obtain ⟨d, hd⟩ := List.getElem?_of_mem hd
      cases definition with
      | operation operation =>
        cases ho
        exact ⟨d, [], _, .root hd hr, hs⟩
      | fragment => cases ho
    | @descend selection inner parent type body _ hb hs ih =>
      obtain ⟨d, path, selections, hw, hm⟩ := ih
      cases hn : spreadName? selection with
      | none =>
        obtain ⟨i, hi⟩ := List.getElem?_of_mem hm
        exact ⟨d, path ++ [i], body, .written hw hi hn hb, hs⟩
      | some name =>
        cases selection with
        | spread spread =>
          obtain ⟨fragment, hf, -⟩ :=
            Passes.of_spread (a := (.spread spread, parent)) (b := (inner, type)) rfl ⟨body, hb, hs⟩
          obtain ⟨k, hk, -⟩ := Document.get?_ofDocument_eq_some_iff.1 hf
          exact ⟨k, [], body, .spread hw hm hk hb, hs⟩
        | _ => cases hn
  · rintro ⟨d, path, selections, hw, hm⟩
    induction hw generalizing selection with
    | root hd hr =>
      exact .root (List.mem_filterMap.2 ⟨_, List.mem_of_getElem? hd, rfl⟩) hr hm
    | written h hi hs hb ih => exact (ih (List.mem_of_getElem? hi)).descend hb hm
    | spread h hi hk hb ih => exact (ih hi).descend hb hm

/-! ## Accepted integers -/

/-- The walk accepts the integer at a place where a float is expected. -/
inductive Accepted (schema : Schema) (document : Document) (place : Place) (n : Int64)
    (p : Position) : Prop
  | mk {selections : List Selection} {parent : TypeDefinition} {field : FieldSelection}
      {definition : FieldDefinition} {argument : Argument} {input : InputValue}
      (hw : Walked schema document place.definition place.enclosing selections parent)
      (hs : selections[place.selection]? = some (.field field))
      (hf : schema.field? parent field.name.value = some definition)
      (ha : field.arguments[place.argument]? = some argument)
      (hi : definition.arguments.get? argument.name.value = some input)
      (hl : Leaf input.type argument.value place.items "Float" (.int n p))
      (he : ∀ type, schema.type? "Float" ≠ some (.enum type))

variable {place : Place} {n : Int64} {p : Position}

theorem coercion_not_mem_fragmentStep (name : Option String) (condition : String) (q : Position) :
    .coercion n p ∉ (fragmentStep schema parent name condition q).findings := by
  intro h
  rcases fragmentStep_cases schema parent name condition q with
    ⟨-, hs⟩ | ⟨type, -, ⟨_, -, -, hs⟩ | ⟨_, -, -, hs⟩ | ⟨-, hs⟩⟩
  · simp [hs] at h
  · simp [hs] at h
  · simp [hs] at h
  · cases ho : schema.overlap type parent <;> simp [hs, ho] at h

theorem coercion_mem_argumentFindings_iff {field : FieldSelection}
    {definition : FieldDefinition} :
    .coercion n p ∈ argumentFindings schema parent field definition ↔
      ∃ argument ∈ field.arguments, ∃ input,
        definition.arguments.get? argument.name.value = some input ∧
        .coercion n p ∈ literalFindings schema input.type argument.value := by
  have hm : .coercion n p ∉ definition.arguments.entries.flatMap (missingFindings field) := by
    intro h
    obtain ⟨declared, -, h⟩ := List.mem_flatMap.1 h
    unfold missingFindings at h
    split at h
    · simp at h
    · cases h
  rw [argumentFindings, List.mem_append, or_iff_left hm, List.mem_flatMap]
  refine exists_congr fun argument => and_congr_right fun _ => ?_
  unfold suppliedFindings
  cases definition.arguments.get? argument.name.value <;> simp

/-- A coercion at a selection is one in the literal of a declared argument. -/
theorem coercion_mem_selectionStep_iff {table : FragmentTable} {selection : Selection} :
    .coercion n p ∈ (selectionStep schema table parent selection).findings ↔
      ∃ field definition, selection = .field field ∧
        schema.field? parent field.name.value = some definition ∧
        .coercion n p ∈ argumentFindings schema parent field definition := by
  cases selection with
  | field field =>
    cases hf : schema.field? parent field.name.value with
    | none => simp [selectionStep, fieldStep, hf]
    | some definition =>
      obtain ⟨own, ho, hp⟩ := fieldStep_findings hf
      have hn : .coercion n p ∉ own := by
        intro h
        obtain ⟨_, _, h⟩ := hp _ h
        cases h
      rw [selectionStep, ho, List.mem_append, or_iff_left hn]
      simp [hf]
  | inline fragment =>
    cases hc : fragment.typeCondition with
    | none => simp [selectionStep, inlineStep_of_none hc]
    | some condition =>
      simp [selectionStep, inlineStep_of_some hc, coercion_not_mem_fragmentStep]
  | spread spread =>
    cases hf : table.get? spread.name.value <;>
      simp [selectionStep, hf, coercion_not_mem_fragmentStep]

/-- The coercions that the walk finds are the integers that it accepts. -/
theorem coercion_mem_documentFindings_iff :
    .coercion n p ∈ documentFindings schema document ↔
      ∃ place, Accepted schema document place n p := by
  rw [mem_documentFindings_iff (by simp [IsCut])]
  constructor
  · rintro (⟨_, _, _, h⟩ | ⟨selection, parent, hr, h⟩)
    · cases h
    · obtain ⟨field, definition, rfl, hf, h⟩ := coercion_mem_selectionStep_iff.1 h
      obtain ⟨argument, ha, input, hi, h⟩ := coercion_mem_argumentFindings_iff.1 h
      obtain ⟨⟨items, hl⟩, he⟩ := coercion_mem_literalFindings_iff.1 h
      obtain ⟨d, path, selections, hw, hm⟩ := reachable_iff_walked.1 hr
      obtain ⟨i, hs⟩ := List.getElem?_of_mem hm
      obtain ⟨j, ha⟩ := List.getElem?_of_mem ha
      exact ⟨⟨d, path, i, j, items⟩, .mk hw hs hf ha hi hl he⟩
  · rintro ⟨place, ⟨hw, hs, hf, ha, hi, hl, he⟩⟩
    refine .inr ⟨_, _, reachable_iff_walked.2 ⟨_, _, _, hw, List.mem_of_getElem? hs⟩, ?_⟩
    refine coercion_mem_selectionStep_iff.2 ⟨_, _, rfl, hf, ?_⟩
    exact coercion_mem_argumentFindings_iff.2
      ⟨_, List.mem_of_getElem? ha, _, hi, coercion_mem_literalFindings_iff.2 ⟨⟨_, hl⟩, he⟩⟩

theorem isSome_widened? : (schema.validate document).widened?.isSome =
    (documentFindings schema document).any Finding.isCoercion := by
  simp only [Schema.validate]
  split <;> simp [*]

/-- A document is widened if the walk accepts some integer. -/
theorem isSome_widened?_iff :
    (schema.validate document).widened?.isSome = true ↔
      ∃ place n p, Accepted schema document place n p := by
  rw [isSome_widened?, List.any_eq_true]
  constructor
  · rintro ⟨finding, hm, hf⟩
    cases finding with
    | coercion n p =>
      obtain ⟨place, h⟩ := coercion_mem_documentFindings_iff.1 hm
      exact ⟨place, n, p, h⟩
    | _ => cases hf
  · rintro ⟨place, n, p, h⟩
    exact ⟨_, coercion_mem_documentFindings_iff.2 ⟨place, h⟩, rfl⟩

theorem normalize_eq_self (h : (schema.validate document).widened?.isSome = false) :
    schema.normalize document = document := by
  have hn := Option.not_isSome_iff_eq_none.1 (by simpa using h)
  rw [Schema.normalize, hn, Option.getD_none]

theorem normalize_eq_widenDocument (h : (schema.validate document).widened?.isSome = true) :
    schema.normalize document = widenDocument schema document := by
  obtain ⟨widened, hw⟩ := Option.isSome_iff_exists.1 h
  rw [Schema.normalize, hw, Option.getD_some]
  simp only [Schema.validate] at hw
  split at hw
  · exact (Option.some.inj hw).symm
  · cases hw

/-- An accepted integer is written at its place. -/
theorem Accepted.literalAt? (h : Accepted schema document place n p) :
    document.literalAt? place = some (.int n p) := by
  obtain ⟨hw, hs, hf, ha, hi, hl, he⟩ := h
  simp [Document.literalAt?, Document.argumentAt?, Document.selectionAt?, hw.selectionsAt?, hs, ha,
    hl.at?, Selection.argument?]

/-! ## Meta-fields on the way -/

/-- The field is resolved as a meta-field on `parent`. -/
def IsMeta (schema : Schema) (parent : TypeDefinition) (field : FieldSelection) : Prop :=
  (Introspection.metaField? field.name.value (parent.name == schema.rootTypeName .query)).isSome =
    true

/-- The walk makes a field on `parent` that encloses the depth of a definition. -/
def Encloses (schema : Schema) (document : Document) (d : Nat) (path : List Nat)
    (field : FieldSelection) (parent : TypeDefinition) : Prop :=
  ∃ outer i inner selections, path = outer ++ i :: inner ∧
    Walked schema document d outer selections parent ∧ selections[i]? = some (.field field)

theorem field?_of_not_isMeta {field : FieldSelection} (h : ¬ IsMeta schema parent field) :
    schema.field? parent field.name.value = parent.field? field.name.value := by
  unfold IsMeta at h
  rw [Schema.field?, Option.not_isSome_iff_eq_none.1 h, Option.none_or]

theorem not_encloses_nil {field : FieldSelection} :
    ¬ Encloses schema document d [] field parent := by
  rintro ⟨outer, i, inner, _, h, -⟩
  simp at h

theorem encloses_snoc_iff {i : Nat} {field : FieldSelection} :
    Encloses schema document d (path ++ [i]) field parent ↔
      Encloses schema document d path field parent ∨
        ∃ selections, Walked schema document d path selections parent ∧
          selections[i]? = some (.field field) := by
  constructor
  · rintro ⟨outer, j, inner, selections, hp, hw, hi⟩
    rcases List.eq_nil_or_concat inner with rfl | ⟨init, k, rfl⟩
    · obtain ⟨rfl, hj⟩ := List.append_inj' hp rfl
      cases hj
      exact .inr ⟨selections, hw, hi⟩
    · rw [List.concat_eq_append, ← List.cons_append, ← List.append_assoc] at hp
      obtain ⟨rfl, -⟩ := List.append_inj' hp rfl
      exact .inl ⟨outer, j, init, selections, rfl, hw, hi⟩
  · rintro (⟨outer, j, inner, selections, rfl, hw, hi⟩ | ⟨selections, hw, hi⟩)
    · exact ⟨outer, j, inner ++ [i], selections, by simp, hw, hi⟩
    · exact ⟨path, i, [], selections, rfl, hw, hi⟩

/-- Below a selection that is no meta-field both typings agree. -/
theorem Descends.declaredType? {table : FragmentTable} {selection : Selection}
    {body : List Selection} {type : TypeDefinition}
    (hb : Descends schema table parent selection body type) (hs : spreadName? selection = none)
    (hm : ∀ field, selection = .field field → ¬ IsMeta schema parent field) :
    declaredType? schema parent selection = some type := by
  cases hb with
  | field hf ht =>
    rw [field?_of_not_isMeta (hm _ rfl)] at hf
    simp [Validation.declaredType?, hf, ht]
  | bare hc => simp [Validation.declaredType?, hc]
  | conditioned hc ht =>
    cases hc with
    | inline hc => simp [Validation.declaredType?, hc, ht]
    | spread => cases hs

theorem Descends.type_unique {table : FragmentTable} {selection : Selection}
    {body body' : List Selection} {type type' : TypeDefinition}
    (h : Descends schema table parent selection body type)
    (h' : Descends schema table parent selection body' type') : type' = type := by
  cases h with
  | field hf ht =>
    cases h' with
    | field hf' ht' =>
      cases hf.symm.trans hf'
      exact Option.some.inj (ht'.symm.trans ht)
    | conditioned hc => cases hc
  | bare hn =>
    cases h' with
    | bare => rfl
    | conditioned hc =>
      cases hc with
      | inline hc => cases hn.symm.trans hc
  | conditioned hc ht =>
    cases h' with
    | field => cases hc
    | bare hn =>
      cases hc with
      | inline hc => cases hn.symm.trans hc
    | conditioned hc' ht' =>
      obtain ⟨-, rfl, -⟩ := hc.unique hc'
      exact Option.some.inj (ht'.symm.trans ht)

theorem Walked.of_nil (h : Walked schema document d [] selections parent) :
    declaredParent? schema document d [] = some parent := by
  generalize hp : [] = path at h
  cases h with
  | root hd hr => simp [Validation.declaredParent?, hd, declaredAt?, definitionType?, hr]
  | written => simp at hp
  | spread _ _ hk hb =>
    obtain ⟨fragment, hd, -, ht⟩ := hb.of_spread hk
    simp [Validation.declaredParent?, hd, declaredAt?, definitionType?, ht]

theorem Walked.of_snoc {i : Nat} (h : Walked schema document d (path ++ [i]) selections parent) :
    ∃ outer selection type, Walked schema document d path outer type ∧
      outer[i]? = some selection ∧ spreadName? selection = none ∧
      Descends schema (.ofDocument document) type selection selections parent := by
  generalize hp : path ++ [i] = whole at h
  cases h with
  | root => simp at hp
  | written h hi hs hb =>
    obtain ⟨rfl, hj⟩ := List.append_inj' hp rfl
    cases hj
    exact ⟨_, _, _, h, hi, hs, hb⟩
  | spread => simp at hp

/-- The walk makes the selections at a depth on one type only. -/
theorem Walked.unique {other : List Selection} {type : TypeDefinition}
    (h : Walked schema document d path selections parent)
    (h' : Walked schema document d path other type) : other = selections ∧ type = parent := by
  refine ⟨Option.some.inj (h'.selectionsAt?.symm.trans h.selectionsAt?), ?_⟩
  induction path using List.reverseRecOn generalizing selections parent other type with
  | nil => exact Option.some.inj (h'.of_nil.symm.trans h.of_nil)
  | append_singleton path i ih =>
    obtain ⟨outer, selection, upper, hw, hi, -, hb⟩ := h.of_snoc
    obtain ⟨outer', selection', upper', hw', hi', -, hb'⟩ := h'.of_snoc
    cases hw.selectionsAt?.symm.trans hw'.selectionsAt?
    cases hi.symm.trans hi'
    cases ih hw hw'
    exact hb.type_unique hb'

/-- **Where the two typings agree**: if no meta-field that the walk passes is
declared by the type it is made on, widening has the walk's type exactly
where no meta-field encloses the selections, and no type anywhere else. -/
theorem Walked.declaredParent? (h : Walked schema document d path selections parent)
    (hm : ∀ field type, Encloses schema document d path field type → IsMeta schema type field →
      type.field? field.name.value = none) :
    (declaredParent? schema document d path = some parent ∧
        ∀ field type, Encloses schema document d path field type → ¬ IsMeta schema type field) ∨
      (declaredParent? schema document d path = none ∧
        ∃ field type, Encloses schema document d path field type ∧ IsMeta schema type field) := by
  induction path using List.reverseRecOn generalizing selections parent with
  | nil => exact .inl ⟨h.of_nil, fun field type he => absurd he not_encloses_nil⟩
  | append_singleton path i ih =>
    obtain ⟨outer, selection, upper, hw, hi, hs, hb⟩ := h.of_snoc
    obtain ⟨definition, hd, hl⟩ := Option.bind_eq_some_iff.1 hw.selectionsAt?
    have hsnoc : Validation.declaredParent? schema document d (path ++ [i]) =
        (Validation.declaredParent? schema document d path).bind
          fun type => Validation.declaredType? schema type selection := by
      simp only [Validation.declaredParent?, hd, Option.bind_some, declaredAt?_snoc hl hi]
    rcases ih hw fun field type he => hm field type (encloses_snoc_iff.2 (.inl he)) with
      ⟨hp, hno⟩ | ⟨hp, field, type, he, hmeta⟩
    · rw [hsnoc, hp, Option.bind_some]
      -- the innermost enclosing selection decides
      by_cases hmeta : ∃ field, selection = .field field ∧ IsMeta schema upper field
      · obtain ⟨field, rfl, hmeta⟩ := hmeta
        have he := encloses_snoc_iff.2 (.inr ⟨outer, hw, hi⟩)
        refine .inr ⟨?_, field, upper, he, hmeta⟩
        simp [Validation.declaredType?, hm field upper he hmeta]
      · have hmeta : ∀ field, selection = .field field → ¬ IsMeta schema upper field :=
          fun field hf hi => hmeta ⟨field, hf, hi⟩
        refine .inl ⟨hb.declaredType? hs hmeta, ?_⟩
        intro field type he
        rcases encloses_snoc_iff.1 he with he | ⟨outer', hw', hi'⟩
        · exact hno field type he
        · obtain ⟨rfl, rfl⟩ := hw.unique hw'
          cases hi.symm.trans hi'
          exact hmeta field rfl
    · -- below a meta-field the typing of the definition stays lost
      refine .inr ⟨?_, field, type, encloses_snoc_iff.2 (.inl he), hmeta⟩
      rw [hsnoc, hp, Option.bind_none]

/-! ## Which accepted integers are widened -/

theorem Leaf.base_eq {type : TypeRef} {literal leaf : Literal} {items : List Nat} {name : String}
    (h : Leaf type literal items name leaf) : type.base = name := by
  induction h with
  | named => rfl
  | nonNull _ ih => exact ih
  | item _ _ ih => exact ih
  | single _ _ ih => exact ih

/-- The only argument of a meta-field is a string. -/
theorem type_of_metaField? {name argument : String} {onQueryRoot : Bool}
    {definition : FieldDefinition} {input : InputValue}
    (hd : Introspection.metaField? name onQueryRoot = some definition)
    (hi : definition.arguments.get? argument = some input) :
    input.type = Introspection.always "String" := by
  unfold Introspection.metaField? at hd
  split at hd
  · cases hd
    cases hi
  · split at hd
    · cases hd
      cases hi
    · split at hd
      · cases hd
        simp only [Introspection.typeField, FieldDefinition.withArgument, FieldDefinition.ofType,
          Keyed.get?_insert, Keyed.get?_empty] at hi
        split at hi
        · cases hi
          rfl
        · cases hi
      · cases hd

/-- An accepted integer is not in an argument of a meta-field. -/
theorem not_isMeta_of_leaf {field : FieldSelection} {definition : FieldDefinition}
    {argument : String} {input : InputValue} {literal leaf : Literal} {items : List Nat}
    (hf : schema.field? parent field.name.value = some definition)
    (hi : definition.arguments.get? argument = some input)
    (hl : Leaf input.type literal items "Float" leaf) : ¬ IsMeta schema parent field := by
  intro hm
  obtain ⟨resolved, hr⟩ := Option.isSome_iff_exists.1 hm
  rw [Schema.field?, hr, Option.some_or] at hf
  cases hf
  have hb := hl.base_eq
  rw [type_of_metaField? hr hi] at hb
  exact absurd hb (by decide)

/-- An accepted integer on the type that its definition declares is declared a float. -/
theorem Accepted.floatDeclared (h : Accepted schema document place n p)
    (hp : ∀ selections parent,
      Walked schema document place.definition place.enclosing selections parent →
      declaredParent? schema document place.definition place.enclosing = some parent) :
    FloatDeclared schema document place := by
  obtain ⟨hw, hs, hf, ha, hi, hl, he⟩ := h
  have hd := hp _ _ hw
  have hm := not_isMeta_of_leaf hf hi hl
  rw [field?_of_not_isMeta hm] at hf
  refine ⟨_, _, _, ?_, ?_, hl⟩
  · simp [Document.argumentAt?, Document.selectionAt?, hw.selectionsAt?, hs, ha,
      Selection.argument?]
  · simp [declaredInput?, hd, Document.argumentAt?, Document.selectionAt?, hw.selectionsAt?, hs,
      ha, Selection.argument?, selectionInput?, hf, hi]

theorem not_floatDeclared
    (hp : declaredParent? schema document place.definition place.enclosing = none) :
    ¬ FloatDeclared schema document place := by
  rintro ⟨_, _, _, -, hi, -⟩
  simp [declaredInput?, hp] at hi

/-- Where types declare no meta-fields, an accepted integer is declared a float
exactly if no meta-field encloses it. -/
theorem Accepted.floatDeclared_iff (h : Accepted schema document place n p)
    (hm : ∀ field type, Encloses schema document place.definition place.enclosing field type →
      IsMeta schema type field → type.field? field.name.value = none) :
    FloatDeclared schema document place ↔ ∀ field type,
      Encloses schema document place.definition place.enclosing field type →
      ¬ IsMeta schema type field := by
  have h' := h
  obtain ⟨hw, -⟩ := h'
  rcases hw.declaredParent? hm with ⟨hp, hno⟩ | ⟨hp, field, type, he, hmeta⟩
  · refine iff_of_true (h.floatDeclared ?_) hno
    intro selections parent hw'
    obtain ⟨-, rfl⟩ := hw.unique hw'
    exact hp
  · exact iff_of_false (not_floatDeclared hp) fun hno => hno field type he hmeta

/-- The literal that validation leaves where the walk accepts an integer. -/
theorem Accepted.literalAt?_normalize (h : Accepted schema document place n p) :
    (FloatDeclared schema document place → (schema.normalize document).literalAt? place =
        some (.float (Float.ofInt n.toInt) p)) ∧
      (¬ FloatDeclared schema document place →
        (schema.normalize document).literalAt? place = some (.int n p)) := by
  rw [normalize_eq_widenDocument (isSome_widened?_iff.2 ⟨place, n, p, h⟩)]
  exact ⟨literalAt?_widenDocument_of_declared h.literalAt?,
    literalAt?_widenDocument_of_not_declared h.literalAt?⟩

/-- If every accepted integer is declared a float, a document is widened exactly
if that changes it. -/
theorem widened?_eq_none_iff
    (h : ∀ place n p, Accepted schema document place n p → FloatDeclared schema document place) :
    (schema.validate document).widened? = none ↔ schema.normalize document = document := by
  constructor
  · intro hn
    rw [Schema.normalize, hn, Option.getD_none]
  · intro hd
    by_contra hn
    obtain ⟨place, n, p, ha⟩ := isSome_widened?_iff.1 (Option.isSome_iff_ne_none.2 hn)
    have hf := ha.literalAt?_normalize.1 (h place n p ha)
    rw [hd, ha.literalAt?] at hf
    cases hf

/-- Checker and rewrite agree on a document: every accepted integer becomes a
float in its place, and the document counts as widened exactly if it changes. -/
structure CoercionAgrees (schema : Schema) (document : Document) : Prop where
  accepted : ∀ place n p, Accepted schema document place n p →
    (schema.normalize document).literalAt? place = some (.float (Float.ofInt n.toInt) p)
  changed : (schema.validate document).widened?.isSome = true →
    schema.normalize document ≠ document
  shared : (schema.validate document).widened? = none ↔ schema.normalize document = document

/-- They agree exactly if the accepted integers are declared floats. -/
theorem coercionAgrees_iff :
    CoercionAgrees schema document ↔
      ∀ place n p, Accepted schema document place n p → FloatDeclared schema document place := by
  constructor
  · intro hagree place n p h
    by_contra hn
    have hx := hagree.accepted place n p h
    rw [h.literalAt?_normalize.2 hn] at hx
    cases hx
  · intro h
    refine ⟨?_, ?_, widened?_eq_none_iff h⟩
    · exact fun place n p ha => ha.literalAt?_normalize.1 (h place n p ha)
    · intro hw hd
      rw [← widened?_eq_none_iff h] at hd
      simp [hd] at hw

/-- **Which accepted integers become floats.** A document is widened if the walk
accepts some integer as a float. An accepted integer becomes a float where the
typing of its definition has a float, and stays an integer otherwise; unless
types declare meta-fields, that is the case below meta-fields. So checker and
rewrite agree on a document exactly if its accepted integers are declared
floats. -/
theorem accepted_widened (schema : Schema) (document : Document) :
    ((schema.validate document).widened?.isSome = true ↔
      ∃ place n p, Accepted schema document place n p) ∧
    (∀ place n p, Accepted schema document place n p →
      document.literalAt? place = some (.int n p) ∧
      (FloatDeclared schema document place → (schema.normalize document).literalAt? place =
        some (.float (Float.ofInt n.toInt) p)) ∧
      (¬ FloatDeclared schema document place →
        (schema.normalize document).literalAt? place = some (.int n p)) ∧
      ((∀ field type, Encloses schema document place.definition place.enclosing field type →
          IsMeta schema type field → type.field? field.name.value = none) →
        (FloatDeclared schema document place ↔ ∀ field type,
          Encloses schema document place.definition place.enclosing field type →
          ¬ IsMeta schema type field))) ∧
    (CoercionAgrees schema document ↔
      ∀ place n p, Accepted schema document place n p → FloatDeclared schema document place) := by
  refine ⟨isSome_widened?_iff, ?_, coercionAgrees_iff⟩
  intro place n p h
  exact ⟨h.literalAt?, h.literalAt?_normalize.1, h.literalAt?_normalize.2, h.floatDeclared_iff⟩

/-- A schema in which a union joins the query root with a type behind a meta-field. -/
def rootUnion : Schema :=
  ((Schema.empty.withType (.object ((ObjectType.named "Query").withField
    ((FieldDefinition.ofType "scaled" (.named "Int")).withArgument
      (.ofType "by" (.named "Float")))))).withType
    (.union ⟨"Root", none, ["__Schema", "Query"]⟩)).withBuiltins

/-- A valid query with an integer for a float below the meta-field `__schema`. -/
def schemaQuery : Document :=
  ⟨[.operation (.ofList .query [.field ((FieldSelection.named "__schema").selecting
    [.inline (.ofList (some "Root") [.inline (.ofList (some "Query")
      [.field ((FieldSelection.named "scaled").withArgument "by" (.int 2 .unknown))])])])])]⟩

/-- Checker and rewrite disagree on the query: the integer is accepted, and the
query counts as widened, but nothing in it changes. -/
theorem schemaQuery_unchanged :
    Accepted rootUnion schemaQuery ⟨0, [0, 0, 0], 0, 0, []⟩ 2 .unknown ∧
      (rootUnion.validate schemaQuery).diagnostics = [] ∧
      (rootUnion.validate schemaQuery).widened? = some schemaQuery ∧
      (rootUnion.normalize schemaQuery).literalAt? ⟨0, [0, 0, 0], 0, 0, []⟩ =
        some (.int 2 .unknown) ∧
      ¬ CoercionAgrees rootUnion schemaQuery := by
  have query : Walked rootUnion schemaQuery 0 [] _ _ := .root rfl rfl
  have schema : Walked rootUnion schemaQuery 0 [0] _ _ :=
    .written query rfl rfl (.field rfl rfl rfl)
  have union : Walked rootUnion schemaQuery 0 [0, 0] _ _ :=
    .written schema rfl rfl (.conditioned (.inline rfl) rfl (admits_of_ne_union (by nofun)))
  have member : Walked rootUnion schemaQuery 0 [0, 0, 0] _ _ :=
    .written union rfl rfl (.conditioned (.inline rfl) rfl (by rintro _ ⟨⟩; decide))
  have accepted : Accepted rootUnion schemaQuery ⟨0, [0, 0, 0], 0, 0, []⟩ 2 .unknown :=
    .mk member rfl rfl rfl rfl (.named "Float" _) (by rintro type ⟨⟩)
  have widened := isSome_widened?_iff.2 ⟨_, _, _, accepted⟩
  have unchanged : rootUnion.normalize schemaQuery = schemaQuery :=
    (normalize_eq_widenDocument widened).trans rfl
  have findings : documentFindings rootUnion schemaQuery = [.coercion 2 .unknown] := by
    -- the walk goes down by well-founded recursion, so its equations come first
    simp only [schemaQuery, documentFindings_operation, operationFindings, selectionsFindings,
      selectionFindings, Operation.selections_ofList, InlineFragment.selections_ofList,
      FieldSelection.selections_selecting, FieldSelection.selections_withArgument,
      FieldSelection.selections_named]
    rfl
  refine ⟨accepted, ?_, ?_, by rw [unchanged]; rfl, fun h => h.changed widened unchanged⟩
  · rw [Schema.validate, findings]
    rfl
  · obtain ⟨document, hd⟩ := Option.isSome_iff_exists.1 widened
    rw [Schema.normalize, hd, Option.getD_some] at unchanged
    rw [hd, unchanged]

end Validation

end GraphQL
