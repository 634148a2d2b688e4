import GraphQL.Json.Reader
import GraphQL.Json.Shape
import GraphQL.Schema.Basic

/-!
Decoding schemas from JSON. Maps keep the order of their keys, and the last of
several equal keys counts. A type is told by its kind; it is looked at as a
whole, so nothing in it may be unread.
-/

namespace GraphQL

/-- The map that a value encodes. -/
def Keyed.ofJson? {α : Type} (decode : Json → Option α) : Json → Option (Keyed α)
  | .object members =>
    (members.mapM fun member => (decode member.2).map fun value => (member.1, value)).map Keyed.ofList
  | _ => none

/-- The list of names that a value encodes. -/
def Json.names? : Json → Option (List String) := Json.list? Json.string?

/-- The reference that a value encodes. -/
def TypeRef.ofJson? (value : Json) : Option TypeRef := value.string?.bind TypeRef.ofText?

/-- The input value that a value encodes. -/
def InputValue.ofJson? (value : Json) : Option InputValue := do
  let [name, description, type, default?] ←
    value.fields? ["name", "description", "type", "defaultValue"] | none
  return ⟨← Json.required? Json.string? name, ← Json.optional? Json.string? description,
    ← Json.required? TypeRef.ofJson? type, ← Json.optional? Json.string? default?⟩

/-- The field that a value encodes. -/
def FieldDefinition.ofJson? (value : Json) : Option FieldDefinition := do
  let [name, description, type, arguments, deprecated, reason] ←
    value.fields? ["name", "description", "type", "arguments", "deprecated", "deprecationReason"] | none
  return ⟨← Json.required? Json.string? name, ← Json.optional? Json.string? description,
    ← Json.required? TypeRef.ofJson? type,
    ← Json.defaulted? (Keyed.ofJson? InputValue.ofJson?) .empty arguments,
    ← Json.defaulted? Json.bool? false deprecated, ← Json.optional? Json.string? reason⟩

/-- The enum value that a value encodes. -/
def EnumValue.ofJson? (value : Json) : Option EnumValue := do
  let [name, description, deprecated, reason] ←
    value.fields? ["name", "description", "deprecated", "deprecationReason"] | none
  return ⟨← Json.required? Json.string? name, ← Json.optional? Json.string? description,
    ← Json.defaulted? Json.bool? false deprecated, ← Json.optional? Json.string? reason⟩

namespace TypeDefinition

/-- The scalar type that a value encodes. -/
def scalarOfJson? (value : Json) : Option TypeDefinition := do
  let [name, description] ← value.fields? ["name", "description"] | none
  return .scalar ⟨← Json.required? Json.string? name, ← Json.optional? Json.string? description⟩

/-- The object type that a value encodes; it may lack everything. -/
def objectOfJson? (value : Json) : Option TypeDefinition := do
  let [name, description, fields, interfaces] ←
    value.fields? ["name", "description", "fields", "implements"] | none
  return .object ⟨← Json.defaulted? Json.string? "" name, ← Json.optional? Json.string? description,
    ← Json.defaulted? (Keyed.ofJson? FieldDefinition.ofJson?) .empty fields,
    ← Json.defaulted? Json.names? [] interfaces⟩

/-- The interface type that a value encodes; it may lack everything. -/
def interfaceOfJson? (value : Json) : Option TypeDefinition := do
  let [name, description, fields, interfaces] ←
    value.fields? ["name", "description", "fields", "implements"] | none
  return .interface ⟨← Json.defaulted? Json.string? "" name, ← Json.optional? Json.string? description,
    ← Json.defaulted? (Keyed.ofJson? FieldDefinition.ofJson?) .empty fields,
    ← Json.defaulted? Json.names? [] interfaces⟩

/-- The union type that a value encodes. -/
def unionOfJson? (value : Json) : Option TypeDefinition := do
  let [name, description, members] ← value.fields? ["name", "description", "members"] | none
  return .union ⟨← Json.required? Json.string? name, ← Json.optional? Json.string? description,
    ← Json.required? Json.names? members⟩

/-- The enum type that a value encodes. -/
def enumOfJson? (value : Json) : Option TypeDefinition := do
  let [name, description, values] ← value.fields? ["name", "description", "values"] | none
  return .enum ⟨← Json.required? Json.string? name, ← Json.optional? Json.string? description,
    ← Json.required? (Json.list? EnumValue.ofJson?) values⟩

/-- The input object type that a value encodes. -/
def inputObjectOfJson? (value : Json) : Option TypeDefinition := do
  let [name, description, fields] ← value.fields? ["name", "description", "fields"] | none
  return .inputObject ⟨← Json.required? Json.string? name, ← Json.optional? Json.string? description,
    ← Json.defaulted? (Keyed.ofJson? InputValue.ofJson?) .empty fields⟩

/-- The kind of an encoded type and the value that holds the rest: the member
`kind`, which must stand exactly once, or the first item of an array. -/
def kindAndRest? : Json → Option (String × Json)
  | .object members =>
    match members.filter fun member => member.1 == "kind" with
    | [(_, .string kind)] => some (kind, .object members)
    | _ => none
  | .array (.string kind :: rest) => some (kind, .array rest)
  | _ => none

/-- The type that a value encodes. -/
def ofJson? (value : Json) : Option TypeDefinition :=
  if value.complete then
    match kindAndRest? value with
    | some ("SCALAR", rest) => scalarOfJson? rest
    | some ("OBJECT", rest) => objectOfJson? rest
    | some ("INTERFACE", rest) => interfaceOfJson? rest
    | some ("UNION", rest) => unionOfJson? rest
    | some ("ENUM", rest) => enumOfJson? rest
    | some ("INPUT_OBJECT", rest) => inputObjectOfJson? rest
    | _ => none
  else none

end TypeDefinition

namespace Schema

/-- The schema that a value encodes. -/
def ofJson? (value : Json) : Option Schema := do
  let [query, mutation, subscription, types] ←
    value.fields? ["queryType", "mutationType", "subscriptionType", "types"] | none
  return ⟨← Json.optional? Json.string? query, ← Json.optional? Json.string? mutation,
    ← Json.optional? Json.string? subscription,
    ← Json.defaulted? (Keyed.ofJson? TypeDefinition.ofJson?) .empty types⟩

/-- The schema that a text encodes, with the built-in types. -/
def ofText? (text : String) : Option Schema :=
  ((Json.readWithin? text).bind ofJson?).map withBuiltins

end Schema

end GraphQL
