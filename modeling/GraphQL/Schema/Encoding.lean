import GraphQL.Json.Shape
import GraphQL.Schema.Basic

/-!
The encoding of schemas as JSON. Members stand in a fixed order, a map keeps
its order, and a type's kind comes first.
-/

namespace GraphQL

/-- The encoding of a map: an object with its keys in order. -/
def Keyed.toJson {α : Type} (encode : α → Json) (m : Keyed α) : Json :=
  .object (m.entries.map fun entry => (entry.1, encode entry.2))

/-- The encoding of an optional text. -/
def Json.optionalText (text : Option String) : Json := .ofOption .string text

/-- The encoding of a list of names. -/
def Json.ofNames (names : List String) : Json := .array (names.map .string)

/-- The encoding of an input value. -/
def InputValue.toJson (input : InputValue) : Json :=
  .object [("name", .string input.name), ("description", .optionalText input.description),
    ("type", .string input.type.display), ("defaultValue", .optionalText input.default?)]

/-- The encoding of a field. -/
def FieldDefinition.toJson (field : FieldDefinition) : Json :=
  .object [("name", .string field.name), ("description", .optionalText field.description),
    ("type", .string field.type.display), ("arguments", field.arguments.toJson InputValue.toJson),
    ("deprecated", .bool field.deprecated), ("deprecationReason", .optionalText field.deprecationReason)]

/-- The encoding of an enum value. -/
def EnumValue.toJson (value : EnumValue) : Json :=
  .object [("name", .string value.name), ("description", .optionalText value.description),
    ("deprecated", .bool value.deprecated), ("deprecationReason", .optionalText value.deprecationReason)]

namespace TypeDefinition

/-- The members of an encoded type behind its kind. -/
def members : TypeDefinition → List (String × Json)
  | .scalar type => [("name", .string type.name), ("description", .optionalText type.description)]
  | .object type =>
    [("name", .string type.name), ("description", .optionalText type.description),
      ("fields", type.fields.toJson FieldDefinition.toJson), ("implements", .ofNames type.interfaces)]
  | .interface type =>
    [("name", .string type.name), ("description", .optionalText type.description),
      ("fields", type.fields.toJson FieldDefinition.toJson), ("implements", .ofNames type.interfaces)]
  | .union type =>
    [("name", .string type.name), ("description", .optionalText type.description),
      ("members", .ofNames type.members)]
  | .enum type =>
    [("name", .string type.name), ("description", .optionalText type.description),
      ("values", .array (type.values.map EnumValue.toJson))]
  | .inputObject type =>
    [("name", .string type.name), ("description", .optionalText type.description),
      ("fields", type.fields.toJson InputValue.toJson)]

/-- The encoding of a type. -/
def toJson (type : TypeDefinition) : Json :=
  .object (("kind", .string type.kind.name) :: type.members)

end TypeDefinition

/-- The encoding of a schema. -/
def Schema.toJson (schema : Schema) : Json :=
  .object [("queryType", .optionalText schema.queryType), ("mutationType", .optionalText schema.mutationType),
    ("subscriptionType", .optionalText schema.subscriptionType),
    ("types", schema.types.toJson TypeDefinition.toJson)]

end GraphQL
