import GraphQL.Proofs.Fragment.Relabelling
import GraphQL.Proofs.Validation.Literal
import GraphQL.Proofs.Validation.Reachable
import GraphQL.Proofs.Validation.Widening
import GraphQL.Validation.Basic

/-!
# Validation — other positions

Checking and widening tell no nodes apart by where they stand. The walk over the
relabelled document makes the same steps and finds the same, at the relabelled
positions; and the relabelled document is widened to the relabelled widening.
-/

namespace GraphQL

variable (f : Position → Position)

/-- The finding with all positions in it replaced. -/
def Finding.relabel : Finding → Finding
  | .problem cause p => .problem cause (f p)
  | .coercion n p => .coercion n (f p)
  | .undefinedSpread spread => .undefinedSpread (spread.relabel f)
  | .repeatedSpread spread => .repeatedSpread (spread.relabel f)

@[simp] theorem Finding.diagnostic?_relabel (finding : Finding) :
    (finding.relabel f).diagnostic? = finding.diagnostic?.map (Diagnostic.relabel f) := by
  cases finding <;> rfl

@[simp] theorem Finding.isCoercion_relabel (finding : Finding) :
    (finding.relabel f).isCoercion = finding.isCoercion := by
  cases finding <;> rfl

namespace Validation

variable (schema : Schema)

/-! ## Arguments -/

theorem kindFindings_relabel (name : String) (literal : Literal) :
    kindFindings name (literal.relabel f) =
      (kindFindings name literal).map (Finding.relabel f) := by
  have written := literal.display_relabel f
  unfold kindFindings
  rw [Literal.kindName_relabel]
  by_cases hk : literal.kindName = name
  · rw [if_pos hk, if_pos hk]
    rfl
  rw [if_neg hk, if_neg hk]
  cases literal with
  | int n p =>
    show (if name = "Float" then _ else _) = List.map _ (if name = "Float" then _ else _)
    split <;> rfl
  | _ =>
    rw [Literal.relabel] at written ⊢
    simp only [written, List.map_cons, List.map_nil, Finding.relabel]
    rfl

theorem namedFindings_relabel (name : String) (literal : Literal) :
    namedFindings schema name (literal.relabel f) =
      (namedFindings schema name literal).map (Finding.relabel f) := by
  by_cases he : ∃ type, schema.type? name = some (.enum type)
  · obtain ⟨type, ht⟩ := he
    cases literal with
    | enum value =>
      by_cases hv : type.hasValue value.value = true <;>
        simp [namedFindings, Literal.relabel, ht, hv, Finding.relabel]
    | _ =>
      rw [namedFindings_of_enum ht (by simp [Literal.relabel]), namedFindings_of_enum ht (by simp),
        Literal.plainText_relabel, Literal.pos_relabel]
      rfl
  have hn : ∀ type, schema.type? name ≠ some (.enum type) := fun type ht => he ⟨type, ht⟩
  by_cases ho : ∃ type fields p, schema.type? name = some (.inputObject type) ∧
      literal = .object fields p
  · obtain ⟨type, fields, p, ht, rfl⟩ := ho
    rw [Literal.relabel, namedFindings_of_inputObject ht, namedFindings_of_inputObject ht]
    rfl
  · have own : ∀ type fields p, schema.type? name = some (.inputObject type) →
        literal ≠ .object fields p :=
      fun type fields p ht hl => ho ⟨type, fields, p, ht, hl⟩
    have relabelled : ∀ type fields p, schema.type? name = some (.inputObject type) →
        literal.relabel f ≠ .object fields p := by
      intro type fields p ht hl
      cases literal with
      | object fields q => exact own type fields q ht rfl
      | _ => simp [Literal.relabel] at hl
    rw [namedFindings_of_kind hn own, namedFindings_of_kind hn relabelled,
      kindFindings_relabel]

/-- By induction on the expected type, down to the literals that it names. -/
theorem literalFindings_relabel (type : TypeRef) (literal : Literal) :
    literalFindings schema type (literal.relabel f) =
      (literalFindings schema type literal).map (Finding.relabel f) := by
  induction type generalizing literal with
  | named name =>
    cases literal with
    | var name => simp [literalFindings, Literal.relabel]
    | null p => simp [literalFindings, Literal.relabel]
    | list items p => exact namedFindings_relabel f schema name (.list items p)
    | object fields p => exact namedFindings_relabel f schema name (.object fields p)
    | _ => exact namedFindings_relabel f schema name _
  | nonNull inner ih =>
    cases literal with
    | var name => simp [literalFindings, Literal.relabel]
    | null p => simp [literalFindings, Literal.relabel, Finding.relabel]
    | list items p => exact ih (.list items p)
    | object fields p => exact ih (.object fields p)
    | _ => exact ih _
  | list item ih =>
    cases literal with
    | var name => simp [literalFindings, Literal.relabel]
    | null p => simp [literalFindings, Literal.relabel]
    | list items p =>
      simp only [Literal.relabel, Literal.relabelItems_eq, literalFindings, List.flatMap_map,
        List.map_flatMap, ih]
    | object fields p => exact ih (.object fields p)
    | _ => exact ih _

theorem suppliedFindings_relabel (parent : TypeDefinition) (field : FieldSelection)
    (definition : FieldDefinition) (argument : Argument) :
    suppliedFindings schema parent (field.relabel f) definition (argument.relabel f) =
      (suppliedFindings schema parent field definition argument).map (Finding.relabel f) := by
  rw [suppliedFindings, suppliedFindings, argument.name_relabel f]
  cases definition.arguments.get? argument.name.value with
  | none => rfl
  | some input => exact literalFindings_relabel f schema input.type argument.value

theorem missingFindings_relabel (field : FieldSelection) (declared : String × InputValue) :
    missingFindings (field.relabel f) declared =
      (missingFindings field declared).map (Finding.relabel f) := by
  have supplied : ((field.relabel f).arguments.any fun argument => argument.name.value == declared.1) =
      field.arguments.any fun argument => argument.name.value == declared.1 := by
    rw [FieldSelection.relabel, List.any_map]
    rfl
  rw [missingFindings, missingFindings, supplied]
  split <;> rfl

theorem argumentFindings_relabel (parent : TypeDefinition) (field : FieldSelection)
    (definition : FieldDefinition) :
    argumentFindings schema parent (field.relabel f) definition =
      (argumentFindings schema parent field definition).map (Finding.relabel f) := by
  have arguments : (field.relabel f).arguments = field.arguments.map (Argument.relabel f) := rfl
  have missing : missingFindings (field.relabel f) =
      fun declared => (missingFindings field declared).map (Finding.relabel f) := by
    funext declared
    exact missingFindings_relabel f field declared
  simp only [argumentFindings, arguments, missing, List.flatMap_map, suppliedFindings_relabel,
    List.map_append, List.map_flatMap]

/-! ## Selections -/

/-- The step with all positions in its findings replaced. -/
def Step.relabel (step : Step) : Step := ⟨step.findings.map (Finding.relabel f), step.type?⟩

theorem fieldStep_relabel (parent : TypeDefinition) (field : FieldSelection) :
    fieldStep schema parent (field.relabel f) = (fieldStep schema parent field).relabel f := by
  have empty : (field.relabel f).selections.isEmpty = field.selections.isEmpty := by simp
  unfold fieldStep
  rw [field.name_relabel f, empty]
  cases schema.field? parent field.name.value with
  | none => rfl
  | some definition =>
    simp only [argumentFindings_relabel]
    cases schema.type? definition.type.base with
    | none => rfl
    | some type =>
      by_cases hs : type.hasSubfields = true <;> by_cases he : field.selections.isEmpty = true <;>
        simp [hs, he, Step.relabel, Finding.relabel, FieldSelection.relabel]

theorem fragmentStep_relabel (parent : TypeDefinition) (name : Option String)
    (condition : String) (p : Position) :
    fragmentStep schema parent name condition (f p) =
      (fragmentStep schema parent name condition p).relabel f := by
  unfold fragmentStep
  cases schema.type? condition with
  | none => rfl
  | some type =>
    cases parent with
    | union union =>
      by_cases hm : union.hasMember type.name = true <;> simp [hm, Step.relabel, Finding.relabel]
    | _ =>
      simp only [Step.relabel]
      split <;> rfl

theorem inlineStep_relabel (parent : TypeDefinition) (fragment : InlineFragment) :
    inlineStep schema parent (fragment.relabel f) =
      (inlineStep schema parent fragment).relabel f := by
  obtain ⟨condition, set, p⟩ := fragment
  cases condition with
  | none => rfl
  | some condition => exact fragmentStep_relabel f schema parent none condition.value p

variable (table : FragmentTable)

theorem selectionStep_relabel (parent : TypeDefinition) (selection : Selection) :
    selectionStep schema (table.relabel f) parent (selection.relabel f) =
      (selectionStep schema table parent selection).relabel f := by
  cases selection with
  | field field =>
    rw [Selection.relabel_field]
    exact fieldStep_relabel f schema parent field
  | inline fragment =>
    rw [Selection.relabel_inline]
    exact inlineStep_relabel f schema parent fragment
  | spread spread =>
    rw [Selection.relabel_spread, selectionStep, selectionStep, spread.name_relabel f,
      FragmentTable.get?_relabel]
    cases table.get? spread.name.value with
    | none => rfl
    | some fragment => exact fragmentStep_relabel f schema parent _ fragment.typeCondition.value spread.pos

theorem bodyOf_relabel (selection : Selection) :
    bodyOf (table.relabel f) (selection.relabel f) =
      (bodyOf table selection).map (Selection.relabel f) := by
  cases selection with
  | field field => simp [bodyOf]
  | inline fragment => simp [bodyOf]
  | spread spread =>
    rw [Selection.relabel_spread, bodyOf, bodyOf, spread.name_relabel f,
      FragmentTable.get?_relabel]
    cases table.get? spread.name.value <;> rfl

variable {schema table} in
/-- What is found inside a selection is cut at the same spreads, so it is the same if what
is found in the body is. -/
theorem inside_relabel {path : List String} {type : TypeDefinition} {selection : Selection}
    (h : (∀ name, spreadName? selection = some name → name ∉ path) →
      selectionsFindings schema (table.relabel f) (extend path selection) type
          ((bodyOf table selection).map (Selection.relabel f)) =
        (selectionsFindings schema table (extend path selection) type
          (bodyOf table selection)).map (Finding.relabel f)) :
    inside schema (table.relabel f) path type (selection.relabel f) =
      (inside schema table path type selection).map (Finding.relabel f) := by
  have hbody := bodyOf_relabel f table selection
  cases selection with
  | field field =>
    rw [Selection.relabel_field] at hbody ⊢
    show selectionsFindings schema (table.relabel f) path type _ = _
    rw [hbody]
    exact h (fun _ hn => nomatch hn)
  | inline fragment =>
    rw [Selection.relabel_inline] at hbody ⊢
    show selectionsFindings schema (table.relabel f) path type _ = _
    rw [hbody]
    exact h (fun _ hn => nomatch hn)
  | spread spread =>
    rw [Selection.relabel_spread] at hbody ⊢
    rw [inside, inside, hbody, spread.name_relabel f]
    by_cases hp : spread.name.value ∈ path
    · rw [if_pos hp, if_pos hp]
      rfl
    · rw [if_neg hp, if_neg hp]
      refine h ?_
      intro name hn
      cases hn
      exact hp

/-- **The walk finds the same**, by its own recursion. -/
theorem selectionsFindings_relabel (path : List String) (parent : TypeDefinition)
    (selections : List Selection) :
    selectionsFindings schema (table.relabel f) path parent (selections.map (Selection.relabel f)) =
      (selectionsFindings schema table path parent selections).map (Finding.relabel f) := by
  match selections with
  | [] => simp [selectionsFindings]
  | selection :: rest =>
    have hrest := selectionsFindings_relabel path parent rest
    have hinside : ∀ type, inside schema (table.relabel f) path type (selection.relabel f) =
        (inside schema table path type selection).map (Finding.relabel f) := by
      intro type
      refine inside_relabel f fun hn => ?_
      cases selection with
      | field field =>
        have := field.sizeOf_selections_lt
        exact selectionsFindings_relabel path type field.selections
      | inline fragment =>
        have := fragment.sizeOf_selections_lt
        exact selectionsFindings_relabel path type fragment.selections
      | spread spread =>
        rw [bodyOf]
        cases hf : table.get? spread.name.value with
        | none => simp [selectionsFindings]
        | some fragment =>
          -- the only call that is not on a part of the selections: one fragment less is unvisited
          have := FragmentTable.unvisited_cons_lt hf (hn _ rfl)
          exact selectionsFindings_relabel (spread.name.value :: path) type fragment.selections
    rw [List.map_cons, selectionsFindings, selectionsFindings, List.map_append, hrest,
      selectionFindings_eq, selectionFindings_eq, selectionStep_relabel, List.map_append]
    congr 2
    show ((selectionStep schema table parent selection).type?.elim [] fun type =>
      inside schema (table.relabel f) path type (selection.relabel f)) = _
    cases (selectionStep schema table parent selection).type? with
    | none => rfl
    | some type => exact hinside type
termination_by (table.unvisited path, sizeOf selections)

theorem operationFindings_relabel (operation : Operation) :
    operationFindings schema (table.relabel f) (operation.relabel f) =
      (operationFindings schema table operation).map (Finding.relabel f) := by
  have kind : (operation.relabel f).kind = operation.kind := rfl
  rw [operationFindings, operationFindings, kind]
  cases schema.rootType? operation.kind with
  | none => rfl
  | some root => exact selectionsFindings_relabel f schema table [] root operation.selections

theorem documentFindings_relabel (document : Document) :
    documentFindings schema (document.relabel f) =
      (documentFindings schema document).map (Finding.relabel f) := by
  simp only [documentFindings, Document.operations_relabel, FragmentTable.ofDocument_relabel,
    List.flatMap_map, operationFindings_relabel, List.map_flatMap]

/-! ## Widening -/

/-- By induction on the expected type. -/
theorem widenLiteral_relabel (type : TypeRef) (literal : Literal) :
    widenLiteral type (literal.relabel f) = (widenLiteral type literal).relabel f := by
  induction type generalizing literal with
  | named name =>
    rw [widenLiteral, widenLiteral]
    by_cases h : name = "Float"
    · rw [if_pos h, if_pos h, Literal.widened_relabel]
    · rw [if_neg h, if_neg h]
  | nonNull inner ih => exact ih literal
  | list item ih =>
    by_cases hl : ∃ items p, literal = .list items p
    · obtain ⟨items, p, rfl⟩ := hl
      simp only [Literal.relabel, Literal.relabelItems_eq, widenLiteral, List.map_map,
        Function.comp_def, ih]
    · have own : ∀ items p, literal ≠ .list items p := fun items p h => hl ⟨items, p, h⟩
      have relabelled : ∀ items p, literal.relabel f ≠ .list items p := by
        intro items p h
        cases literal with
        | list items q => exact own items q rfl
        | _ => simp [Literal.relabel] at h
      rw [widenLiteral_single item own, widenLiteral_single item relabelled, ih]

theorem widenArgument_relabel (definition : FieldDefinition) (argument : Argument) :
    widenArgument definition (argument.relabel f) = (widenArgument definition argument).relabel f := by
  rw [widenArgument, widenArgument, argument.name_relabel f]
  cases definition.arguments.get? argument.name.value with
  | none => rfl
  | some input =>
    show Argument.mk _ (widenLiteral input.type (argument.value.relabel f)) _ = _
    rw [widenLiteral_relabel]
    rfl

theorem widenedArguments_relabel (definition? : Option FieldDefinition)
    (arguments : List Argument) :
    (definition?.elim (arguments.map (Argument.relabel f)) fun definition =>
        (arguments.map (Argument.relabel f)).map (widenArgument definition)) =
      (definition?.elim arguments fun definition =>
        arguments.map (widenArgument definition)).map (Argument.relabel f) := by
  cases definition? with
  | none => rfl
  | some definition =>
    simp only [Option.elim, List.map_map, Function.comp_def, widenArgument_relabel]

theorem declaredType?_relabel (parent : TypeDefinition) (selection : Selection) :
    declaredType? schema parent (selection.relabel f) = declaredType? schema parent selection := by
  cases selection with
  | field field =>
    rw [Selection.relabel_field]
    rfl
  | spread spread =>
    rw [Selection.relabel_spread]
    rfl
  | inline fragment =>
    obtain ⟨condition, set, p⟩ := fragment
    rw [Selection.relabel_inline]
    cases condition <;> rfl

variable {schema} in
/-- A set is widened as its selections are. -/
theorem widenSet_relabel {type? : Option TypeDefinition} {set : SelectionSet}
    (h : ∀ type, widenSelections schema type (set.selections.map (Selection.relabel f)) =
      (widenSelections schema type set.selections).map (Selection.relabel f)) :
    widenSet schema type? (set.relabel f) = (widenSet schema type? set).relabel f := by
  cases type? with
  | none => rfl
  | some type => exact congrArg (SelectionSet.mk · (f set.pos)) (h type)

theorem widenSelections_relabel (parent : TypeDefinition) (selections : List Selection) :
    widenSelections schema parent (selections.map (Selection.relabel f)) =
      (widenSelections schema parent selections).map (Selection.relabel f) := by
  simp only [widenSelections_eq, List.map_map]
  refine List.map_congr_left ?_
  intro selection hm
  have := List.sizeOf_lt_of_mem hm
  have := selection.sizeOf_enclosed_lt
  have inner := fun type => widenSelections_relabel type selection.enclosed
  have declared := declaredType?_relabel f schema parent selection
  rw [Function.comp_apply, Function.comp_apply]
  cases selection with
  | spread spread =>
    rw [widenSelection_spread, Selection.relabel_spread, widenSelection_spread]
  | inline fragment =>
    rw [Selection.relabel_inline] at declared ⊢
    rw [widenSelection_inline, widenSelection_inline, Selection.relabel_inline, declared]
    exact congrArg (fun set => Selection.inline ⟨_, set, _⟩) (widenSet_relabel f inner)
  | field field =>
    rw [Selection.relabel_field] at declared ⊢
    rw [widenSelection_field, widenSelection_field, Selection.relabel_field, declared]
    obtain ⟨aliasName, name, arguments, set, p⟩ := field
    have hset : ∀ type?, (set.map (SelectionSet.relabel f)).map (widenSet schema type?) =
        (set.map (widenSet schema type?)).map (SelectionSet.relabel f) := by
      intro type?
      cases set with
      | none => rfl
      | some set => exact congrArg some (widenSet_relabel f inner)
    have harguments := widenedArguments_relabel f (parent.field? name.value) arguments
    simp only [FieldSelection.relabel, Name.value_relabel]
    rw [hset, harguments]
termination_by sizeOf selections

theorem widenDefinition_relabel (definition : Definition) :
    widenDefinition schema (definition.relabel f) =
      (widenDefinition schema definition).relabel f := by
  have widens : ∀ (type? : Option TypeDefinition) (set : SelectionSet),
      widenSet schema type? (set.relabel f) = (widenSet schema type? set).relabel f :=
    fun _ set => widenSet_relabel f fun type => widenSelections_relabel f schema type set.selections
  cases definition with
  | operation operation =>
    simp only [widenDefinition, Definition.relabel, Operation.relabel, widens]
  | fragment fragment =>
    simp only [widenDefinition, Definition.relabel, FragmentDefinition.relabel, widens,
      Name.value_relabel]

theorem widenDocument_relabel (document : Document) :
    widenDocument schema (document.relabel f) = (widenDocument schema document).relabel f := by
  simp only [widenDocument, Document.relabel, List.map_map, Function.comp_def,
    widenDefinition_relabel]

end Validation

/-- The outcome with all positions in it replaced. -/
def Validated.relabel (outcome : Validated) : Validated :=
  ⟨outcome.diagnostics.map (Diagnostic.relabel f), outcome.widened?.map (Document.relabel f)⟩

namespace Schema

theorem validate_relabel (schema : Schema) (document : Document) :
    schema.validate (document.relabel f) = (schema.validate document).relabel f := by
  have coercions : ((Validation.documentFindings schema document).map (Finding.relabel f)).any
      Finding.isCoercion = (Validation.documentFindings schema document).any Finding.isCoercion := by
    rw [List.any_map]
    congr 1
    funext finding
    exact finding.isCoercion_relabel f
  simp only [validate, Validated.relabel, Validation.documentFindings_relabel, coercions,
    Validation.widenDocument_relabel, List.filterMap_map, List.map_filterMap, Function.comp_def,
    Finding.diagnostic?_relabel]
  split <;> rfl

theorem normalize_relabel (schema : Schema) (document : Document) :
    schema.normalize (document.relabel f) = (schema.normalize document).relabel f := by
  rw [normalize, normalize, validate_relabel, Validated.relabel]
  cases (schema.validate document).widened? <;> rfl

end Schema

end GraphQL
