import GraphQL.Schema.Basic

/-!
Widening: an integer literal that stands where a float is expected becomes a
float. Every definition is typed by itself, an operation by its root type and
a fragment by its condition, so spreads are not followed and each literal is
visited once. Nothing else in the document changes.
-/

namespace GraphQL.Validation

/-- A literal where its type is expected, with integers widened where the type
has floats. -/
def widenLiteral : TypeRef → Literal → Literal
  | .named name, literal => if name = "Float" then literal.widened else literal
  | .nonNull inner, literal => widenLiteral inner literal
  | .list item, .list items p => .list (items.map (widenLiteral item)) p
  | .list item, literal => widenLiteral item literal

/-- An argument with its value widened, if the field declares it. -/
def widenArgument (definition : FieldDefinition) (argument : Argument) : Argument :=
  match definition.arguments.get? argument.name.value with
  | some input => { argument with value := widenLiteral input.type argument.value }
  | none => argument

mutual

/-- A selection made on a parent type, with the literals in it widened. -/
def widenSelection (schema : Schema) (parent : TypeDefinition) : Selection → Selection
  | .field ⟨aliasName, name, arguments, set, p⟩ =>
    match parent.field? name.value with
    | none => .field ⟨aliasName, name, arguments, set, p⟩
    | some definition =>
      let arguments := arguments.map (widenArgument definition)
      match set, schema.type? definition.type.base with
      | some ⟨selections, q⟩, some type =>
        .field ⟨aliasName, name, arguments, some ⟨widenSelections schema type selections, q⟩, p⟩
      | set, _ => .field ⟨aliasName, name, arguments, set, p⟩
  | .spread spread => .spread spread
  | .inline ⟨none, ⟨selections, q⟩, p⟩ => .inline ⟨none, ⟨widenSelections schema parent selections, q⟩, p⟩
  | .inline ⟨some condition, ⟨selections, q⟩, p⟩ =>
    match schema.type? condition.value with
    | some type => .inline ⟨some condition, ⟨widenSelections schema type selections, q⟩, p⟩
    | none => .inline ⟨some condition, ⟨selections, q⟩, p⟩

/-- The selections made on a parent type, with the literals in them widened. -/
def widenSelections (schema : Schema) (parent : TypeDefinition) : List Selection → List Selection
  | [] => []
  | selection :: selections =>
    widenSelection schema parent selection :: widenSelections schema parent selections

end

/-- A selection set made on a type that may be missing from the schema. -/
def widenSet (schema : Schema) (type? : Option TypeDefinition) (set : SelectionSet) : SelectionSet :=
  match type? with
  | some type => { set with selections := widenSelections schema type set.selections }
  | none => set

/-- A definition with the literals in it widened. -/
def widenDefinition (schema : Schema) : Definition → Definition
  | .operation operation =>
    .operation { operation with
      selectionSet := widenSet schema (schema.rootType? operation.kind) operation.selectionSet }
  | .fragment fragment =>
    .fragment { fragment with
      selectionSet := widenSet schema (schema.type? fragment.typeCondition.value) fragment.selectionSet }

/-- A document with the literals in it widened. -/
def widenDocument (schema : Schema) (document : Document) : Document :=
  ⟨document.definitions.map (widenDefinition schema)⟩

end GraphQL.Validation
