import GraphQL.Fragment.Table
import GraphQL.Validation.Argument

/-!
Selections against the type they are made on. Every step says what is wrong
with the selection itself and which type its sub-selections are made on, if
they are to be looked at. Spreads are followed along a path of names; a spread
of a fragment on the path is not followed again.

The path is an argument. A name is pushed by passing the longer path down to the
body of its fragment, and popped behind it by going on with the path that was given.
A walk that pushes and pops on one path finds the same (`evaluates_handle`).
-/

namespace GraphQL.Validation

/-- What is wrong with a selection itself, and the type of what is below it. -/
structure Step where
  findings : List Finding
  type? : Option TypeDefinition

/-- A field on its parent type. -/
def fieldStep (schema : Schema) (parent : TypeDefinition) (field : FieldSelection) : Step :=
  match schema.field? parent field.name.value with
  | none => ⟨[.problem (.unknownField field.name.value parent.name) field.pos], none⟩
  | some definition =>
    let findings := argumentFindings schema parent field definition
    match schema.type? definition.type.base with
    | none => ⟨findings, none⟩
    | some type =>
      if type.hasSubfields then
        if field.selections.isEmpty then
          ⟨findings ++ [.problem (.missingSelection field.name.value definition.type) field.pos], none⟩
        else ⟨findings, some type⟩
      else if field.selections.isEmpty then ⟨findings, none⟩
      else ⟨findings ++ [.problem (.forbiddenSelection field.name.value definition.type) field.pos], none⟩

/-- A fragment with a type condition under its parent type. Under a union only
listed members are looked into; elsewhere a fragment that never applies is
reported and looked into all the same. -/
def fragmentStep (schema : Schema) (parent : TypeDefinition) (name : Option String) (condition : String)
    (p : Position) : Step :=
  match schema.type? condition with
  | none => ⟨[.problem (.unknownType condition) p], none⟩
  | some type =>
    let impossible : Finding := .problem (.impossibleSpread name parent.name type.name) p
    match parent with
    | .union union => if union.hasMember type.name then ⟨[], some type⟩ else ⟨[impossible], none⟩
    | parent => ⟨if schema.overlap type parent then [] else [impossible], some type⟩

/-- An inline fragment under its parent type; without a condition it keeps the parent. -/
def inlineStep (schema : Schema) (parent : TypeDefinition) (fragment : InlineFragment) : Step :=
  match fragment.typeCondition with
  | none => ⟨[], some parent⟩
  | some condition => fragmentStep schema parent none condition.value fragment.pos

mutual

/-- What is found in a selection made on a parent type. -/
def selectionFindings (schema : Schema) (table : FragmentTable) (path : List String)
    (parent : TypeDefinition) : Selection → List Finding
  | .field field =>
    have := field.sizeOf_selections_lt
    let step := fieldStep schema parent field
    step.findings ++ match step.type? with
      | some type => selectionsFindings schema table path type field.selections
      | none => []
  | .spread spread =>
    match hf : table.get? spread.name.value with
    | none => [.undefinedSpread spread]
    | some fragment =>
      let step := fragmentStep schema parent (some spread.name.value) fragment.typeCondition.value spread.pos
      step.findings ++ match step.type? with
        | none => []
        | some type =>
          if hp : spread.name.value ∈ path then [.repeatedSpread spread]
          else
            have := FragmentTable.unvisited_cons_lt hf hp
            selectionsFindings schema table (spread.name.value :: path) type fragment.selections
  | .inline fragment =>
    have := fragment.sizeOf_selections_lt
    let step := inlineStep schema parent fragment
    step.findings ++ match step.type? with
      | some type => selectionsFindings schema table path type fragment.selections
      | none => []
termination_by selection => (table.unvisited path, sizeOf selection)

/-- What is found in the selections made on a parent type. -/
def selectionsFindings (schema : Schema) (table : FragmentTable) (path : List String)
    (parent : TypeDefinition) : List Selection → List Finding
  | [] => []
  | selection :: selections =>
    selectionFindings schema table path parent selection ++
      selectionsFindings schema table path parent selections
termination_by selections => (table.unvisited path, sizeOf selections)

end

/-- What is found in an operation: a missing root type, or what its selections have. -/
def operationFindings (schema : Schema) (table : FragmentTable) (operation : Operation) : List Finding :=
  match schema.rootType? operation.kind with
  | none => [.problem (.missingRoot operation.kind) operation.pos]
  | some root => selectionsFindings schema table [] root operation.selections

/-- What is found in a document, operation by operation. -/
def documentFindings (schema : Schema) (document : Document) : List Finding :=
  document.operations.flatMap (operationFindings schema (.ofDocument document))

theorem documentFindings_operation (schema : Schema) (operation : Operation) :
    documentFindings schema ⟨[.operation operation]⟩ =
      operationFindings schema (.ofDocument ⟨[.operation operation]⟩) operation := by
  simp [documentFindings, Document.operations, Definition.operation?]

end GraphQL.Validation
