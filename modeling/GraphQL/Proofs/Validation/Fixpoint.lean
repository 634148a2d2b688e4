import GraphQL.Proofs.Validation.Coercion
import GraphQL.Proofs.Validation.Expansion

/-!
# Validation — once is enough

Validating what validation leaves of a document reports the same and changes
nothing, on every schema that declares no meta-fields. The rewrite touches
literals that no message shows: an integer that it makes a float stands where
the check, if it gets there, accepts both. And it touches them on the walk's
own types: below a meta-field, where the two typings part, it touches nothing.

The argument goes along the walk, which meets every fragment widened as its
condition has it, and all other selections either widened on the type that it
makes them on, or not at all.
-/

namespace GraphQL

/-- The names of the meta-fields. -/
def Introspection.metaNames : List String := ["__typename", "__schema", "__type"]

theorem Introspection.mem_metaNames_of_metaField? {name : String} {onQueryRoot : Bool}
    (h : (metaField? name onQueryRoot).isSome = true) : name ∈ metaNames := by
  unfold metaField? at h
  grind [metaNames]

/-- The type declares no field with the name of a meta-field. -/
def TypeDefinition.DeclaresNoMeta (type : TypeDefinition) : Prop :=
  ∀ name ∈ Introspection.metaNames, type.field? name = none

/-- No type of the schema declares a field with the name of a meta-field. -/
def Schema.DeclaresNoMeta (schema : Schema) : Prop :=
  ∀ key type, schema.type? key = some type → type.DeclaresNoMeta

namespace Validation

variable {schema : Schema} {parent : TypeDefinition}

/-! ## Literals -/

/-- A literal that is no list is widened as a whole or not at all. -/
theorem widenLiteral_eq_or (type : TypeRef) {literal : Literal}
    (hl : ∀ items p, literal ≠ .list items p) :
    widenLiteral type literal = literal ∨ widenLiteral type literal = literal.widened := by
  induction type with
  | named name =>
    unfold widenLiteral
    split
    · exact .inr rfl
    · exact .inl rfl
  | nonNull inner ih => exact ih
  | list item ih => rwa [widenLiteral_single item hl]

theorem widenLiteral_ne_list (type : TypeRef) {literal : Literal}
    (hl : ∀ items p, literal ≠ .list items p) (items : List Literal) (p : Position) :
    widenLiteral type literal ≠ .list items p := by
  rcases widenLiteral_eq_or type hl with h | h
  · rw [h]
    exact hl items p
  · rw [h]
    cases literal with
    | list items q => exact absurd rfl (hl items q)
    | _ => simp [Literal.widened, Literal.toFloat?]

theorem widenLiteral_ne_null (type : TypeRef) {literal : Literal} (hn : ∀ p, literal ≠ .null p)
    (p : Position) : widenLiteral type literal ≠ .null p := by
  induction type generalizing literal with
  | named name =>
    cases literal with
    | null q => exact absurd rfl (hn q)
    | _ => unfold widenLiteral; split <;> simp [Literal.widened, Literal.toFloat?]
  | nonNull inner ih => exact ih hn
  | list item ih =>
    by_cases hl : ∀ items p, literal ≠ .list items p
    · rw [widenLiteral_single item hl]
      exact ih hn
    · obtain ⟨items, q, rfl⟩ : ∃ items q, literal = .list items q := by simpa using hl
      simp [widenLiteral]

/-- A widened literal needs no widening. -/
theorem widenLiteral_widenLiteral (type : TypeRef) (literal : Literal) :
    widenLiteral type (widenLiteral type literal) = widenLiteral type literal := by
  induction type generalizing literal with
  | named name => by_cases hn : name = "Float" <;> simp [widenLiteral, hn]
  | nonNull inner ih => exact ih literal
  | list item ih =>
    by_cases hl : ∀ items p, literal ≠ .list items p
    · rw [widenLiteral_single item hl, widenLiteral_single item (widenLiteral_ne_list item hl)]
      exact ih literal
    · obtain ⟨items, q, rfl⟩ : ∃ items q, literal = .list items q := by simpa using hl
      simp [widenLiteral, ih]

/-- At `Float` both an integer and a float are without problems. -/
theorem problems_widenLiteral_named (he : ∀ type, schema.type? "Float" ≠ some (.enum type))
    (name : String) (literal : Literal) :
    (literalFindings schema (.named name) (widenLiteral (.named name) literal)).filterMap
        Finding.problem? =
      (literalFindings schema (.named name) literal).filterMap Finding.problem? := by
  by_cases hi : name = "Float" ∧ ∃ n p, literal = .int n p
  · obtain ⟨rfl, n, p, rfl⟩ := hi
    show (literalFindings schema (.named "Float") (.float (Float.ofInt n.toInt) p)).filterMap _ = _
    rw [literalFindings_named (by simp) (by simp), literalFindings_named (by simp) (by simp),
      namedFindings_of_kind he (by simp), namedFindings_of_kind he (by simp)]
    rfl
  · rw [widenLiteral_eq_self_of_not_leaf]
    rintro n p path hl
    cases hl
    exact hi ⟨rfl, n, p, rfl⟩

/-- **Widening a literal keeps its problems**: no message shows what it changes. -/
theorem problems_widenLiteral (he : ∀ type, schema.type? "Float" ≠ some (.enum type))
    (type : TypeRef) (literal : Literal) :
    (literalFindings schema type (widenLiteral type literal)).filterMap Finding.problem? =
      (literalFindings schema type literal).filterMap Finding.problem? := by
  induction type generalizing literal with
  | named name => exact problems_widenLiteral_named he name literal
  | nonNull inner ih =>
    by_cases hn : ∀ p, literal ≠ .null p
    · rw [literalFindings_nonNull inner hn,
        literalFindings_nonNull inner (widenLiteral_ne_null _ hn)]
      exact ih literal
    · obtain ⟨p, rfl⟩ : ∃ p, literal = .null p := by simpa using hn
      rw [widenLiteral_eq_self _ (by simp) (by simp)]
  | list item ih =>
    by_cases hl : ∃ items p, literal = .list items p
    · -- the items are checked one by one, so the induction applies to each
      obtain ⟨items, q, rfl⟩ := hl
      rw [widenLiteral, literalFindings_items, literalFindings_items, List.filterMap_flatMap,
        List.filterMap_flatMap, List.flatMap_map]
      exact congrArg items.flatMap (funext ih)
    · have hl : ∀ items p, literal ≠ .list items p := by simpa using hl
      by_cases hn : ∀ p, literal ≠ .null p
      · rw [widenLiteral_single item hl, literalFindings_single item hn hl,
          literalFindings_single item (widenLiteral_ne_null item hn) (widenLiteral_ne_list item hl)]
        exact ih literal
      · obtain ⟨p, rfl⟩ : ∃ p, literal = .null p := by simpa using hn
        rw [widenLiteral_eq_self _ (by simp) (by simp)]

/-! ## Fields -/

/-- The names of arguments stay, so a missing argument is missing on both sides. -/
theorem missingFindings_congr {field other : FieldSelection} (hn : other.name = field.name)
    (hp : other.pos = field.pos)
    (ha : other.arguments.map (·.name) = field.arguments.map (·.name)) :
    missingFindings other = missingFindings field := by
  funext declared
  have hany : ∀ arguments : List Argument, (arguments.any fun argument =>
      argument.name.value == declared.1) =
        (arguments.map (·.name)).any fun name => name.value == declared.1 := by
    intro arguments
    rw [List.any_map]
    rfl
  simp only [missingFindings, hany, hn, hp, ha]

theorem problems_suppliedFindings (he : ∀ type, schema.type? "Float" ≠ some (.enum type))
    {field other : FieldSelection} (hn : other.name = field.name) (definition : FieldDefinition)
    (argument : Argument) :
    (suppliedFindings schema parent other definition (widenArgument definition argument)).filterMap
        Finding.problem? =
      (suppliedFindings schema parent field definition argument).filterMap Finding.problem? := by
  unfold widenArgument
  cases hi : definition.arguments.get? argument.name.value with
  | none => simp [suppliedFindings, hi, hn]
  | some input =>
    simp only [suppliedFindings, hi]
    exact problems_widenLiteral he input.type argument.value

/-- A field with widened arguments has the problems of the field. -/
theorem problems_argumentFindings (he : ∀ type, schema.type? "Float" ≠ some (.enum type))
    {field other : FieldSelection} {definition : FieldDefinition} (hn : other.name = field.name)
    (hp : other.pos = field.pos)
    (ha : other.arguments = field.arguments.map (widenArgument definition)) :
    (argumentFindings schema parent other definition).filterMap Finding.problem? =
      (argumentFindings schema parent field definition).filterMap Finding.problem? := by
  have hnames : other.arguments.map (·.name) = field.arguments.map (·.name) := by
    rw [ha, List.map_map]
    refine List.map_congr_left fun argument _ => ?_
    show (widenArgument definition argument).name = argument.name
    unfold widenArgument
    split <;> rfl
  simp only [argumentFindings, List.filterMap_append, List.filterMap_flatMap, ha,
    List.flatMap_map, missingFindings_congr hn hp hnames]
  congr 1
  exact List.flatMap_congr fun argument _ => problems_suppliedFindings he hn definition argument

/-! ## Steps -/

/-- Two steps have the same problems and look into the same type. -/
structure Step.Alike (first second : Step) : Prop where
  problems : first.findings.filterMap Finding.problem? = second.findings.filterMap Finding.problem?
  type? : first.type? = second.type?

theorem Step.Alike.of_eq {first second : Step} (h : first = second) : first.Alike second := by
  subst h
  exact ⟨rfl, rfl⟩

theorem alike_fieldStep {field other : FieldSelection} (hn : other.name = field.name)
    (hp : other.pos = field.pos) (hs : other.selections.isEmpty = field.selections.isEmpty)
    (ha : ∀ definition, schema.field? parent field.name.value = some definition →
      (argumentFindings schema parent other definition).filterMap Finding.problem? =
        (argumentFindings schema parent field definition).filterMap Finding.problem?) :
    (fieldStep schema parent other).Alike (fieldStep schema parent field) := by
  cases hf : schema.field? parent field.name.value with
  | none => exact .of_eq (by simp only [fieldStep, hn, hf, hp])
  | some definition =>
    have ha := ha definition hf
    simp only [fieldStep, hn, hf, hp, hs]
    cases schema.type? definition.type.base with
    | none => exact ⟨ha, rfl⟩
    | some type =>
      cases ht : type.hasSubfields <;> cases field.selections.isEmpty <;>
        exact ⟨by simp [ht, ha], by simp [ht]⟩

theorem isEmpty_widenOn (type? : Option TypeDefinition) (selections : List Selection) :
    (widenOn schema type? selections).isEmpty = selections.isEmpty := by
  cases type? <;> simp [widenOn, widenSelections_eq]

/-- A selection that is widened on the type it is made on has the same step. A
field is widened for the definition that the walk resolves, for if the type
declares the field, it is no meta-field. -/
theorem alike_widenSelection (he : ∀ type, schema.type? "Float" ≠ some (.enum type))
    (hp : parent.DeclaresNoMeta) (table : FragmentTable) (selection : Selection) :
    (selectionStep schema table parent (widenSelection schema parent selection)).Alike
      (selectionStep schema table parent selection) := by
  cases selection with
  | spread spread => exact .of_eq (by rw [widenSelection_spread])
  | inline fragment => exact .of_eq (by rw [widenSelection_inline]; rfl)
  | field field =>
    have hs : (widenSelection schema parent (.field field)).enclosed.isEmpty =
        field.selections.isEmpty := by
      rw [enclosed_widenSelection, isEmpty_widenOn]
      rfl
    rw [widenSelection_field] at hs ⊢
    cases hf : parent.field? field.name.value with
    | none => exact .of_eq (fieldStep_congr rfl rfl rfl hs)
    | some definition =>
      -- rewrite and walk take the definition from the same place unless the field is a meta-field
      have hm : ¬ IsMeta schema parent field := by
        intro hm
        rw [hp _ (Introspection.mem_metaNames_of_metaField? hm)] at hf
        cases hf
      refine alike_fieldStep rfl rfl hs fun resolved hr => ?_
      rw [field?_of_not_isMeta hm, hf] at hr
      cases hr
      exact problems_argumentFindings he rfl rfl rfl

/-- A step looks at a fragment for its condition only. -/
theorem selectionStep_widened {table widened : FragmentTable}
    (ht : ∀ name, widened.get? name = (table.get? name).map (widenFragment schema))
    (selection : Selection) :
    selectionStep schema widened parent selection = selectionStep schema table parent selection := by
  cases selection with
  | spread spread =>
    simp only [selectionStep, ht]
    cases table.get? spread.name.value <;> rfl
  | _ => rfl

/-! ## The walk -/

/-- A selection widened on a type, or left alone without one. -/
def widenSelectionOn (schema : Schema) (type? : Option TypeDefinition) (selection : Selection) :
    Selection :=
  type?.elim selection fun type => widenSelection schema type selection

theorem widenOn_cons (type? : Option TypeDefinition) (selection : Selection)
    (selections : List Selection) :
    widenOn schema type? (selection :: selections) =
      widenSelectionOn schema type? selection :: widenOn schema type? selections := by
  cases type? <;> simp [widenOn, widenSelectionOn, widenSelections]

theorem widenSelectionOn_spread (type? : Option TypeDefinition) (spread : FragmentSpread) :
    widenSelectionOn schema type? (.spread spread) = .spread spread := by
  cases type? with
  | none => rfl
  | some type =>
    rw [widenSelectionOn, Option.elim]
    exact widenSelection_spread type spread

theorem spreadName?_widenSelectionOn (type? : Option TypeDefinition) (selection : Selection) :
    spreadName? (widenSelectionOn schema type? selection) = spreadName? selection := by
  cases type? with
  | none => rfl
  | some type =>
    rw [widenSelectionOn, Option.elim]
    cases selection with
    | field field => rw [widenSelection_field]; rfl
    | spread spread => rw [widenSelection_spread]
    | inline fragment => rw [widenSelection_inline]; rfl

theorem enclosed_widenSelectionOn (type? : Option TypeDefinition) (selection : Selection) :
    (widenSelectionOn schema type? selection).enclosed =
      widenOn schema (type?.bind fun type => declaredType? schema type selection)
        selection.enclosed := by
  cases type? with
  | none => rfl
  | some type => exact enclosed_widenSelection type selection

/-- Below a selection that is no spread are the selections it encloses. -/
theorem inside_eq_enclosed {table : FragmentTable} {path : List String} {type : TypeDefinition}
    {selection : Selection} (hs : spreadName? selection = none) :
    inside schema table path type selection =
      selectionsFindings schema table path type selection.enclosed := by
  cases selection with
  | spread => cases hs
  | _ => rfl

/-- What a step looks into is typed alike by widening, or not at all. -/
theorem declaredType?_of_step {table : FragmentTable} {selection : Selection}
    {type : TypeDefinition} (hp : parent.DeclaresNoMeta) (hs : spreadName? selection = none)
    (h : (selectionStep schema table parent selection).type? = some type) :
    declaredType? schema parent selection = none ∨
      declaredType? schema parent selection = some type := by
  cases selection with
  | spread => cases hs
  | field field =>
    obtain ⟨definition, hf, ht, -⟩ := type?_fieldStep_iff.1 h
    by_cases hm : IsMeta schema parent field
    · exact .inl (by simp [declaredType?, hp _ (Introspection.mem_metaNames_of_metaField? hm)])
    · rw [field?_of_not_isMeta hm] at hf
      exact .inr (by simp [declaredType?, hf, ht])
  | inline fragment =>
    cases hc : fragment.typeCondition with
    | none =>
      rw [selectionStep, inlineStep_of_none hc] at h
      cases h
      exact .inr (by simp [declaredType?, hc])
    | some condition =>
      rw [selectionStep, inlineStep_of_some hc] at h
      exact .inr (by simp [declaredType?, hc, (type?_fragmentStep_iff.1 h).1])

/-- A step looks into types of the schema, or keeps the parent. -/
theorem declaresNoMeta_of_step (hschema : schema.DeclaresNoMeta) (hp : parent.DeclaresNoMeta)
    {table : FragmentTable} {selection : Selection} {type : TypeDefinition}
    (h : (selectionStep schema table parent selection).type? = some type) :
    type.DeclaresNoMeta := by
  cases selection with
  | field field =>
    obtain ⟨definition, -, ht, -⟩ := type?_fieldStep_iff.1 h
    exact hschema _ _ ht
  | inline fragment =>
    cases hc : fragment.typeCondition with
    | none =>
      rw [selectionStep, inlineStep_of_none hc] at h
      cases h
      exact hp
    | some condition =>
      rw [selectionStep, inlineStep_of_some hc] at h
      exact hschema _ _ (type?_fragmentStep_iff.1 h).1
  | spread spread =>
    cases hf : table.get? spread.name.value with
    | none => simp [selectionStep, hf] at h
    | some fragment =>
      simp only [selectionStep, hf] at h
      exact hschema _ _ (type?_fragmentStep_iff.1 h).1

/-- A spread has the same problems inside if its fragment, followed once, has them. -/
theorem problems_inside_spread {table widened : FragmentTable}
    (ht : ∀ name, widened.get? name = (table.get? name).map (widenFragment schema))
    {path : List String} {spread : FragmentSpread} {type : TypeDefinition}
    (hi : (selectionStep schema table parent (.spread spread)).type? = some type)
    (hbody : ∀ fragment, table.get? spread.name.value = some fragment → spread.name.value ∉ path →
      (selectionsFindings schema widened (spread.name.value :: path) type
          (widenOn schema (some type) fragment.selections)).filterMap Finding.problem? =
        (selectionsFindings schema table (spread.name.value :: path) type
          fragment.selections).filterMap Finding.problem?) :
    (inside schema widened path type (.spread spread)).filterMap Finding.problem? =
      (inside schema table path type (.spread spread)).filterMap Finding.problem? := by
  by_cases hn : spread.name.value ∈ path
  · simp [inside, hn]
  · cases hf : table.get? spread.name.value with
    | none => simp [selectionStep, hf] at hi
    | some fragment =>
      -- the fragment is widened on its condition, and the walk looks into that type
      simp only [selectionStep, hf] at hi
      have hcondition := (type?_fragmentStep_iff.1 hi).1
      simp only [inside, hn, if_false, bodyOf, ht, hf, Option.map_some]
      rw [FragmentDefinition.selections, widenFragment, selections_widenSet, hcondition]
      exact hbody fragment hf hn

/-- **The walk finds the same problems** where selections are widened on the type
that they are made on, or not at all. By the recursion of the walk. -/
theorem problems_selectionsFindings (he : ∀ type, schema.type? "Float" ≠ some (.enum type))
    (hschema : schema.DeclaresNoMeta) {table widened : FragmentTable}
    (ht : ∀ name, widened.get? name = (table.get? name).map (widenFragment schema))
    (path : List String) {parent : TypeDefinition} (hp : parent.DeclaresNoMeta)
    {type? : Option TypeDefinition} (hw : type? = none ∨ type? = some parent)
    (selections : List Selection) :
    (selectionsFindings schema widened path parent (widenOn schema type? selections)).filterMap
        Finding.problem? =
      (selectionsFindings schema table path parent selections).filterMap Finding.problem? := by
  match selections with
  | [] => cases type? <;> simp [widenOn, widenSelections, selectionsFindings]
  | selection :: rest =>
    have hrest := problems_selectionsFindings he hschema ht path hp hw rest
    have hstep : (selectionStep schema widened parent (widenSelectionOn schema type? selection)).Alike
        (selectionStep schema table parent selection) := by
      rw [selectionStep_widened ht]
      rcases hw with rfl | rfl
      · exact .of_eq rfl
      · exact alike_widenSelection he hp table selection
    rw [widenOn_cons, selectionsFindings, selectionsFindings, List.filterMap_append,
      List.filterMap_append, hrest, selectionFindings_eq, selectionFindings_eq,
      List.filterMap_append, List.filterMap_append, hstep.problems, hstep.type?]
    congr 2
    cases hi : (selectionStep schema table parent selection).type? with
    | none => rfl
    | some type =>
      have htype := declaresNoMeta_of_step hschema hp hi
      rw [Option.elim, Option.elim]
      cases hs : spreadName? selection with
      | none =>
        rw [inside_eq_enclosed hs, inside_eq_enclosed ((spreadName?_widenSelectionOn _ _).trans hs),
          enclosed_widenSelectionOn]
        have := selection.sizeOf_enclosed_lt
        refine problems_selectionsFindings he hschema ht path htype ?_ selection.enclosed
        rcases hw with rfl | rfl
        · exact .inl rfl
        · exact declaredType?_of_step hp hs hi
      | some name =>
        cases selection with
        | spread spread =>
          rw [widenSelectionOn_spread]
          refine problems_inside_spread ht hi fun fragment hf hn => ?_
          have := FragmentTable.unvisited_cons_lt hf hn
          exact problems_selectionsFindings he hschema ht (spread.name.value :: path) htype
            (.inr rfl) fragment.selections
        | _ => cases hs
termination_by (table.unvisited path, sizeOf selections)

/-! ## Documents -/

theorem problems_widenDocument (he : ∀ type, schema.type? "Float" ≠ some (.enum type))
    (hschema : schema.DeclaresNoMeta) (document : Document) :
    documentProblems schema (widenDocument schema document) = documentProblems schema document := by
  simp only [documentProblems, documentFindings, operations_widenDocument, List.flatMap_map,
    List.filterMap_flatMap]
  refine List.flatMap_congr fun operation _ => ?_
  simp only [operationFindings, widenOperation]
  cases hr : schema.rootType? operation.kind with
  | none => rfl
  | some root =>
    show (selectionsFindings schema _ [] root (widenSet schema _ operation.selectionSet).selections
      ).filterMap _ = _
    rw [selections_widenSet]
    exact problems_selectionsFindings he hschema (get?_ofDocument_widenDocument document) []
      (hschema _ _ hr) (.inr rfl) operation.selections

/-! ## Widening twice -/

theorem widenArgument_widenArgument (definition : FieldDefinition) (argument : Argument) :
    widenArgument definition (widenArgument definition argument) =
      widenArgument definition argument := by
  unfold widenArgument
  cases hi : definition.arguments.get? argument.name.value with
  | none => simp [hi]
  | some input => simp [hi, widenLiteral_widenLiteral]

theorem map_widenArgument_twice (definition : FieldDefinition) (arguments : List Argument) :
    (arguments.map (widenArgument definition)).map (widenArgument definition) =
      arguments.map (widenArgument definition) := by
  rw [List.map_map]
  exact List.map_congr_left fun argument _ => widenArgument_widenArgument definition argument

theorem widenSet_widenSet {type? : Option TypeDefinition} {set : SelectionSet}
    (h : widenOn schema type? (widenOn schema type? set.selections) =
      widenOn schema type? set.selections) :
    widenSet schema type? (widenSet schema type? set) = widenSet schema type? set := by
  cases type? with
  | none => rfl
  | some type => exact congrArg (SelectionSet.mk · set.pos) h

/-- Widened selections need no widening on their type. -/
theorem widenOn_widenOn (type? : Option TypeDefinition) (selections : List Selection) :
    widenOn schema type? (widenOn schema type? selections) = widenOn schema type? selections := by
  cases type? with
  | none => rfl
  | some parent =>
    simp only [widenOn, Option.elim, widenSelections_eq, List.map_map]
    refine List.map_congr_left fun selection hm => ?_
    have := List.sizeOf_lt_of_mem hm
    have := selection.sizeOf_enclosed_lt
    have inner := widenOn_widenOn (declaredType? schema parent selection) selection.enclosed
    rw [Function.comp_apply]
    cases selection with
    | spread spread => rw [widenSelection_spread, widenSelection_spread]
    | inline fragment =>
      rw [widenSelection_inline, widenSelection_inline]
      exact congrArg (fun set => Selection.inline ⟨_, set, _⟩) (widenSet_widenSet inner)
    | field field =>
      rw [widenSelection_field, widenSelection_field]
      simp only [Selection.field.injEq, FieldSelection.mk.injEq, true_and, and_true]
      constructor
      · cases parent.field? field.name.value with
        | none => rfl
        | some definition => exact map_widenArgument_twice definition field.arguments
      · cases hs : field.selectionSet with
        | none => rfl
        | some set =>
          rw [Selection.enclosed, FieldSelection.selections, hs] at inner
          exact congrArg some (widenSet_widenSet inner)
termination_by sizeOf selections

theorem widenDocument_widenDocument (document : Document) :
    widenDocument schema (widenDocument schema document) = widenDocument schema document := by
  have each : ∀ definition, widenDefinition schema (widenDefinition schema definition) =
      widenDefinition schema definition := by
    intro definition
    cases definition with
    | operation operation =>
      exact congrArg (fun set => Definition.operation { operation with selectionSet := set })
        (widenSet_widenSet (widenOn_widenOn _ _))
    | fragment fragment =>
      exact congrArg (fun set => Definition.fragment { fragment with selectionSet := set })
        (widenSet_widenSet (widenOn_widenOn _ _))
  rw [widenDocument, widenDocument, List.map_map]
  exact congrArg Document.mk (List.map_congr_left fun definition _ => each definition)

theorem normalize_normalize (document : Document) :
    schema.normalize (schema.normalize document) = schema.normalize document := by
  cases hw : (schema.validate document).widened?.isSome with
  | false => rw [normalize_eq_self hw, normalize_eq_self hw]
  | true =>
    rw [normalize_eq_widenDocument hw]
    cases hw' : (schema.validate (widenDocument schema document)).widened?.isSome with
    | false => exact normalize_eq_self hw'
    | true => rw [normalize_eq_widenDocument hw', widenDocument_widenDocument]

end Validation

open Validation

/-- **Once is enough**: if no type declares a field with the name of a meta-field,
the document that validation leaves has the diagnostics of the document, and
validating it again leaves it as it is. -/
theorem Schema.DeclaresNoMeta.revalidate {schema : Schema} (h : schema.DeclaresNoMeta)
    (document : Document) :
    schema.diagnose (schema.normalize document) = schema.diagnose document ∧
      schema.normalize (schema.normalize document) = schema.normalize document := by
  refine ⟨?_, normalize_normalize document⟩
  cases hw : (schema.validate document).widened?.isSome with
  | false => rw [normalize_eq_self hw]
  | true =>
    obtain ⟨_, _, _, ⟨_, _, _, _, _, _, he⟩⟩ := isSome_widened?_iff.1 hw
    rw [normalize_eq_widenDocument hw, Schema.diagnose, Schema.diagnose, diagnostics_eq,
      diagnostics_eq, problems_widenDocument he h]

/-- A schema with a field that takes a float. -/
def scaledSchema : Schema :=
  Schema.empty.withType (.object ((ObjectType.named "Query").withField
    ((FieldDefinition.ofType "scaled" (.named "Int")).withArgument
      (.ofType "by" (.named "Float")))))

/-- A query with an integer for a float, and with a field that does not exist. -/
def scaledQuery : Document :=
  ⟨[.operation (.ofList .query
    [.field ((FieldSelection.named "scaled").withArgument "by" (.int 2 .unknown)),
      .field (.named "missing")])]⟩

theorem scaledSchema_declaresNoMeta : scaledSchema.DeclaresNoMeta := by
  intro key type h name hm
  simp only [Schema.type?, scaledSchema, Schema.withType, Schema.empty, Keyed.get?_insert,
    Keyed.get?_empty, ite_eq_iff, Option.some.injEq, reduceCtorEq, and_false, or_false] at h
  obtain ⟨-, rfl⟩ := h
  simp only [Introspection.metaNames, List.mem_cons, List.not_mem_nil, or_false] at hm
  rcases hm with rfl | rfl | rfl <;> rfl

/-- The integer of the query is widened, the problem of the query stays, and
validating once more changes nothing. -/
theorem scaledQuery_revalidate :
    scaledSchema.DeclaresNoMeta ∧
      documentProblems scaledSchema scaledQuery = [(.unknownField "missing" "Query", .unknown)] ∧
      (scaledSchema.normalize scaledQuery).literalAt? ⟨0, [], 0, 0, []⟩ =
        some (.float (Float.ofInt (Int64.toInt 2)) .unknown) ∧
      scaledSchema.diagnose (scaledSchema.normalize scaledQuery) =
        scaledSchema.diagnose scaledQuery ∧
      scaledSchema.normalize (scaledSchema.normalize scaledQuery) =
        scaledSchema.normalize scaledQuery := by
  have findings : documentFindings scaledSchema scaledQuery =
      [.coercion 2 .unknown, .problem (.unknownField "missing" "Query") .unknown] := by
    simp only [scaledQuery, documentFindings_operation, operationFindings, selectionsFindings,
      selectionFindings, Operation.selections_ofList, FieldSelection.selections_withArgument,
      FieldSelection.selections_named]
    rfl
  refine ⟨scaledSchema_declaresNoMeta, by rw [documentProblems, findings]; rfl, ?_,
    scaledSchema_declaresNoMeta.revalidate scaledQuery⟩
  have widened : (scaledSchema.validate scaledQuery).widened?.isSome = true := by
    rw [isSome_widened?, findings]
    rfl
  rw [normalize_eq_widenDocument widened]
  rfl

end GraphQL
