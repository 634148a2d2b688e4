import GraphQL.Schema.Basic
import GraphQL.Validation.Finding

/-!
Arguments against their declarations. A variable fits everything, `null` fits
what is nullable, and a single value may stand where a list is expected. The
recursion follows the type: a literal is never taken apart further than the
lists in its expected type.
-/

namespace GraphQL.Validation

/-- A literal other than a variable, a null or an accepted list against a named
type. An integer is a float; an object literal fits every input object type. -/
def namedFindings (schema : Schema) (name : String) (literal : Literal) : List Finding :=
  let mismatch : List Finding :=
    match literal with
    | .int n p =>
      if name = "Int" then []
      else if name = "Float" then [.coercion n p]
      else [.problem (.wrongLiteral name literal.display) p]
    | literal =>
      if literal.kindName = name then [] else [.problem (.wrongLiteral name literal.display) literal.pos]
  match schema.type? name, literal with
  | some (.enum type), .enum value =>
    if type.hasValue value.value then [] else [.problem (.unknownEnumValue type.name value.value) value.pos]
  | some (.enum type), literal => [.problem (.nonEnumLiteral type.name literal.plainText) literal.pos]
  | some (.inputObject _), .object _ _ => []
  | _, _ => mismatch

/-- A literal against its expected type. -/
def literalFindings (schema : Schema) : TypeRef → Literal → List Finding
  | _, .var _ => []
  | .nonNull inner, .null p => [.problem (.unexpectedNull (.nonNull inner)) p]
  | _, .null _ => []
  | .named name, literal => namedFindings schema name literal
  | .nonNull inner, literal => literalFindings schema inner literal
  | .list item, .list items _ => items.flatMap (literalFindings schema item)
  | .list item, literal => literalFindings schema item literal

/-- A supplied argument: an unknown one, or its value against the declared type. -/
def suppliedFindings (schema : Schema) (parent : TypeDefinition) (field : FieldSelection)
    (definition : FieldDefinition) (argument : Argument) : List Finding :=
  match definition.arguments.get? argument.name.value with
  | some input => literalFindings schema input.type argument.value
  | none =>
    [.problem (.unknownArgument argument.name.value parent.name field.name.value) argument.pos]

/-- A declared argument: missing if it is required and no supplied one has its name. -/
def missingFindings (field : FieldSelection) (declared : String × InputValue) : List Finding :=
  if declared.2.isRequired && !field.arguments.any fun argument => argument.name.value == declared.1 then
    [.problem (.missingArgument field.name.value declared.1 declared.2.type) field.pos]
  else []

/-- The arguments of a field: the supplied ones in query order, then the
missing ones in the order of their declaration. -/
def argumentFindings (schema : Schema) (parent : TypeDefinition) (field : FieldSelection)
    (definition : FieldDefinition) : List Finding :=
  field.arguments.flatMap (suppliedFindings schema parent field definition) ++
    definition.arguments.entries.flatMap (missingFindings field)

end GraphQL.Validation
