import GraphQL.Document.Basic
import GraphQL.Schema.Introspection

/-!
Schemas: named types in order, and the names of the root types. A type is
found by its key. Two types overlap when some object can be of both.
-/

namespace GraphQL

/-- A schema. -/
structure Schema where
  queryType : Option String
  mutationType : Option String
  subscriptionType : Option String
  types : Keyed TypeDefinition

namespace Schema

/-- The schema without types. -/
def empty : Schema := ⟨none, none, none, .empty⟩

/-- The type with a key. -/
def type? (schema : Schema) (key : String) : Option TypeDefinition := schema.types.get? key

/-- The name of the root type for a kind of operation: the configured one, or the usual one. -/
def rootTypeName (schema : Schema) : OperationKind → String
  | .query => schema.queryType.getD "Query"
  | .mutation => schema.mutationType.getD "Mutation"
  | .subscription => schema.subscriptionType.getD "Subscription"

/-- The root type for a kind of operation. -/
def rootType? (schema : Schema) (kind : OperationKind) : Option TypeDefinition :=
  schema.type? (schema.rootTypeName kind)

/-- The name of a type that is an object type with an interface. -/
def implementer? (interface : String) : TypeDefinition → Option String
  | .object type => if type.interfaces.contains interface then some type.name else none
  | _ => none

/-- The names of the object types that a value of a type can have. -/
def possibleTypes (schema : Schema) : TypeDefinition → List String
  | .object type => [type.name]
  | .union type => type.members
  | .interface type => schema.types.values.filterMap (implementer? type.name)
  | _ => []

/-- Some object can be of both types. -/
def overlap (schema : Schema) (a b : TypeDefinition) : Bool :=
  a.name == b.name || (schema.possibleTypes b).any fun name => (schema.possibleTypes a).contains name

/-- The field with a name on a type: a meta-field first, then a declared field. -/
def field? (schema : Schema) (parent : TypeDefinition) (name : String) : Option FieldDefinition :=
  (Introspection.metaField? name (parent.name == schema.rootTypeName .query)).or (parent.field? name)

/-- The schema with the built-in types that it lacks at its end. -/
def withBuiltins (schema : Schema) : Schema :=
  { schema with types := Introspection.builtinTypes.foldl (fun types type => types.insertNew type.name type) schema.types }

/-- The schema of the built-in types alone. -/
def builtin : Schema := empty.withBuiltins

/-- The schema with one more type, or with a type of the same name replaced. -/
def withType (schema : Schema) (type : TypeDefinition) : Schema :=
  { schema with types := schema.types.insert type.name type }

end Schema

end GraphQL
