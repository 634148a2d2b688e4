import GraphQL.Proofs.Subscription.RootFields
import GraphQL.Proofs.Validation.Relabelling

/-!
# Subscriptions — other positions

Positions are labels. Whatever is put in their place, and if all of them become
one, the problems of a document, what validation leaves of it and the root field
of its subscriptions are the same but for the labels. Main statement: checking,
widening and preparing commute with every relabelling.
-/

namespace GraphQL

variable (f : Position → Position)

mutual

/-- A literal has its value wherever it stands. -/
theorem Literal.value?_relabel (env : String → Option Json) (literal : Literal) :
    (literal.relabel f).value? env = literal.value? env := by
  cases literal with
  | list items p =>
    rw [Literal.relabel, Literal.value?, Literal.value?, Literal.itemValues_relabel]
  | object fields p =>
    rw [Literal.relabel, Literal.value?, Literal.value?, Literal.fieldValues_relabel]
  | _ => rfl
termination_by sizeOf literal

theorem Literal.itemValues_relabel (env : String → Option Json) (items : List Literal) :
    Literal.itemValues env (Literal.relabelItems f items) = Literal.itemValues env items := by
  cases items with
  | nil => rfl
  | cons item items =>
    rw [Literal.relabelItems, Literal.itemValues, Literal.itemValues, item.value?_relabel env,
      Literal.itemValues_relabel env items]
termination_by sizeOf items

theorem Literal.fieldValues_relabel (env : String → Option Json)
    (fields : List (Name × Literal)) :
    Literal.fieldValues env (Literal.relabelFields f fields) = Literal.fieldValues env fields := by
  match fields with
  | [] => rfl
  | (name, value) :: fields =>
    rw [Literal.relabelFields, Literal.fieldValues, Literal.fieldValues, value.value?_relabel env,
      Literal.fieldValues_relabel env fields]
    rfl
termination_by sizeOf fields

end

namespace Subscription

theorem defaultValue?_relabel (definitions : List VariableDefinition) (name : String) :
    defaultValue? (definitions.map (VariableDefinition.relabel f)) name =
      defaultValue? definitions name := by
  rw [defaultValue?, defaultValue?, List.find?_map]
  have same : ((fun definition : VariableDefinition => definition.name.value == name) ∘
      VariableDefinition.relabel f) = fun definition => definition.name.value == name := rfl
  rw [same]
  cases definitions.find? fun definition => definition.name.value == name with
  | none => rfl
  | some definition =>
    obtain ⟨own, default?, p⟩ := definition
    cases default? with
    | none => rfl
    | some literal => exact literal.value?_relabel f _

theorem environment_relabel (values : Record) (definitions : List VariableDefinition) :
    environment values (definitions.map (VariableDefinition.relabel f)) =
      environment values definitions := by
  funext name
  rw [environment, environment, defaultValue?_relabel]

theorem argumentValues_relabel (env : String → Option Json) (arguments : List Argument) :
    argumentValues env (arguments.map (Argument.relabel f)) = argumentValues env arguments := by
  have same : ∀ argument : Argument,
      (argument.relabel f).value.value? env = argument.value.value? env :=
    fun argument => argument.value.value?_relabel f env
  simp only [argumentValues, List.filterMap_map, Function.comp_def, same]
  rfl

/-- The collector follows names, so it meets the same fields. -/
theorem rootSelections_relabel (table : FragmentTable) (visited : List String)
    (selections : List Selection) :
    rootSelections (table.relabel f) visited (selections.map (Selection.relabel f)) =
      (rootSelections table visited selections).map (FieldSelection.relabel f) := by
  induction visited, selections using rootSelections.induct table with
  | case1 visited => simp [rootSelections]
  | case2 visited field pending ih =>
    rw [List.map_cons, Selection.relabel_field, rootSelections, rootSelections, ih, List.map_cons]
  | case3 visited fragment pending ih =>
    rw [List.map_append] at ih
    rw [List.map_cons, Selection.relabel_inline, rootSelections, rootSelections, ← ih]
    rfl
  | case4 visited spread pending hv ih =>
    rw [List.map_cons, Selection.relabel_spread, rootSelections_spread, rootSelections_spread,
      spread.name_relabel f, if_pos hv, if_pos hv, ih]
  | case5 visited spread pending hv hf ih =>
    rw [List.map_cons, Selection.relabel_spread, rootSelections_spread, rootSelections_spread,
      spread.name_relabel f, if_neg hv, if_neg hv, FragmentTable.get?_relabel, hf]
    exact ih
  | case6 visited spread pending hv fragment hf _ ih =>
    rw [List.map_append] at ih
    rw [List.map_cons, Selection.relabel_spread, rootSelections_spread, rootSelections_spread,
      spread.name_relabel f, if_neg hv, if_neg hv, FragmentTable.get?_relabel, hf]
    exact ih

theorem singleFieldDiagnostic_relabel (operation : Operation) :
    singleFieldDiagnostic (operation.relabel f) = (singleFieldDiagnostic operation).relabel f := by
  obtain ⟨kind, name, definitions, set, p⟩ := operation
  cases name <;> rfl

theorem rootField_relabel (operation : Operation) (table : FragmentTable) (values : Record) :
    rootField (operation.relabel f) (table.relabel f) values =
      (rootField operation table values).mapError (Diagnostic.relabel f) := by
  have name : (operation.relabel f).name.map Name.value = operation.name.map Name.value := by
    rw [Operation.relabel, Option.map_map]
    rfl
  have definitions : (operation.relabel f).variableDefinitions =
      operation.variableDefinitions.map (VariableDefinition.relabel f) := rfl
  rw [rootField, rootField, Operation.selections_relabel, rootSelections_relabel,
    singleFieldDiagnostic_relabel, name, definitions, environment_relabel]
  cases rootSelections table [] operation.selections with
  | nil => rfl
  | cons first others =>
    have same : ((others.map (FieldSelection.relabel f)).all fun field =>
        field.responseKey == first.responseKey) =
          others.all fun field => field.responseKey == first.responseKey := by
      simp [List.all_map, Function.comp_def]
    have arguments : argumentValues (environment values operation.variableDefinitions)
        (first.relabel f).arguments =
          argumentValues (environment values operation.variableDefinitions) first.arguments :=
      argumentValues_relabel f _ first.arguments
    simp only [List.map_cons, FieldSelection.responseKey_relabel, same, arguments]
    by_cases h : (others.all fun field => field.responseKey == first.responseKey) = true
    · rw [if_pos h, if_pos h]
      rfl
    · rw [if_neg h, if_neg h]
      rfl

/-- **Positions are labels**: for every function of positions, the relabelled document has
the same problems with its fragments and with its operations, relabelled, in the same order,
validation leaves the relabelled document of what it left, and changes it if it changed it;
and every operation has the same root field, or the same error at the new position. -/
theorem commutes_with_relabelling (f : Position → Position) (schema : Schema) (document : Document) :
    (document.relabel f).fragmentProblems =
        document.fragmentProblems.map (Diagnostic.relabel f) ∧
      (schema.validate (document.relabel f)).diagnostics =
        (schema.validate document).diagnostics.map (Diagnostic.relabel f) ∧
      (schema.validate (document.relabel f)).widened? =
        (schema.validate document).widened?.map (Document.relabel f) ∧
      schema.normalize (document.relabel f) = (schema.normalize document).relabel f ∧
      ∀ (operation : Operation) (values : Record),
        rootField (operation.relabel f) (.ofDocument (document.relabel f)) values =
          (rootField operation (.ofDocument document) values).mapError (Diagnostic.relabel f) := by
  refine ⟨document.fragmentProblems_relabel f, ?_, ?_, schema.normalize_relabel f document, ?_⟩
  · rw [schema.validate_relabel]
    rfl
  · rw [schema.validate_relabel]
    rfl
  · intro operation values
    rw [FragmentTable.ofDocument_relabel, rootField_relabel]

end Subscription

end GraphQL
