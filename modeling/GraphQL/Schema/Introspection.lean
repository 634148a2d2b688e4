import GraphQL.Schema.Definition

/-!
What every schema provides: the built-in scalars, the types behind
introspection, and the meta-fields. Meta-fields are declared by no type; they
are found by name wherever a field is looked up.
-/

namespace GraphQL.Introspection

/-- A reference to a type that is never null. -/
def always (name : String) : TypeRef := .nonNull (.named name)

/-- A reference to a list, which may be null, of items that are never null. -/
def many (name : String) : TypeRef := .list (always name)

/-- A reference to a list that is never null, of items that are never null. -/
def alwaysMany (name : String) : TypeRef := .nonNull (many name)

/-- The field `__typename`, which every type with subfields has. -/
def typenameField : FieldDefinition := .ofType "__typename" (always "String")

/-- The field `__schema` of the query root. -/
def schemaField : FieldDefinition := .ofType "__schema" (always "__Schema")

/-- The field `__type` of the query root. -/
def typeField : FieldDefinition :=
  (FieldDefinition.ofType "__type" (.named "__Type")).withArgument (.ofType "name" (always "String"))

/-- The meta-field with a name; two of them exist on the query root only. -/
def metaField? (name : String) (onQueryRoot : Bool) : Option FieldDefinition :=
  if name = "__typename" then some typenameField
  else if name = "__schema" ∧ onQueryRoot then some schemaField
  else if name = "__type" ∧ onQueryRoot then some typeField
  else none

/-- The names of the built-in scalars. -/
def scalarNames : List String := ["Int", "Float", "String", "Boolean", "ID"]

/-- A built-in scalar. -/
def builtinScalar (name : String) : TypeDefinition :=
  .scalar ⟨name, some s!"Built-in {name} scalar"⟩

/-- A field that may be null. -/
def maybe (name type : String) : FieldDefinition := .ofType name (.named type)

/-- A field that is never null. -/
def sure (name type : String) : FieldDefinition := .ofType name (always type)

/-- The argument that asks for deprecated members as well. -/
def includeDeprecated : InputValue :=
  (InputValue.ofType "includeDeprecated" (.named "Boolean")).withDefault "false"

/-- An object type with the given fields. -/
def objectOf (name : String) (fields : List FieldDefinition) : TypeDefinition :=
  .object (fields.foldl ObjectType.withField (.named name))

/-- The types behind the meta-fields. -/
def metaTypes : List TypeDefinition :=
  [objectOf "__Schema"
    [maybe "description" "String", .ofType "types" (alwaysMany "__Type"), sure "queryType" "__Type",
      maybe "mutationType" "__Type", maybe "subscriptionType" "__Type",
      .ofType "directives" (alwaysMany "__Directive")],
   objectOf "__Type"
    [sure "kind" "__TypeKind", maybe "name" "String", maybe "description" "String",
      maybe "specifiedByURL" "String",
      (FieldDefinition.ofType "fields" (many "__Field")).withArgument includeDeprecated,
      .ofType "interfaces" (many "__Type"), .ofType "possibleTypes" (many "__Type"),
      (FieldDefinition.ofType "enumValues" (many "__EnumValue")).withArgument includeDeprecated,
      (FieldDefinition.ofType "inputFields" (many "__InputValue")).withArgument includeDeprecated,
      maybe "ofType" "__Type"],
   objectOf "__Field"
    [sure "name" "String", maybe "description" "String",
      (FieldDefinition.ofType "args" (alwaysMany "__InputValue")).withArgument includeDeprecated,
      sure "type" "__Type", sure "isDeprecated" "Boolean", maybe "deprecationReason" "String"],
   objectOf "__InputValue"
    [sure "name" "String", maybe "description" "String", sure "type" "__Type",
      maybe "defaultValue" "String", sure "isDeprecated" "Boolean", maybe "deprecationReason" "String"],
   objectOf "__EnumValue"
    [sure "name" "String", maybe "description" "String", sure "isDeprecated" "Boolean",
      maybe "deprecationReason" "String"],
   objectOf "__Directive"
    [sure "name" "String", maybe "description" "String",
      .ofType "locations" (alwaysMany "__DirectiveLocation"),
      (FieldDefinition.ofType "args" (alwaysMany "__InputValue")).withArgument includeDeprecated,
      sure "isRepeatable" "Boolean"],
   .enum (.ofList "__TypeKind"
    ["SCALAR", "OBJECT", "INTERFACE", "UNION", "ENUM", "INPUT_OBJECT", "LIST", "NON_NULL"]),
   .enum (.ofList "__DirectiveLocation"
    ["QUERY", "MUTATION", "SUBSCRIPTION", "FIELD", "FRAGMENT_DEFINITION", "FRAGMENT_SPREAD",
      "INLINE_FRAGMENT", "VARIABLE_DEFINITION", "SCHEMA", "SCALAR", "OBJECT", "FIELD_DEFINITION",
      "ARGUMENT_DEFINITION", "INTERFACE", "UNION", "ENUM", "ENUM_VALUE", "INPUT_OBJECT",
      "INPUT_FIELD_DEFINITION"])]

/-- Every type that a schema provides by itself. -/
def builtinTypes : List TypeDefinition := scalarNames.map builtinScalar ++ metaTypes

end GraphQL.Introspection
