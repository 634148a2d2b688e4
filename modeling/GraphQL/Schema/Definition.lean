import GraphQL.Keyed
import GraphQL.Schema.TypeRef

/-!
Definitions of named types. Fields and arguments stand in maps whose keys are
what a document refers to; a definition's own name is what messages show.
-/

namespace GraphQL

/-- The kinds of type; the last two belong to wrappers only. -/
inductive TypeKind where
  | scalar
  | object
  | interface
  | union
  | enum
  | inputObject
  | list
  | nonNull
deriving DecidableEq

/-- The name of a kind. -/
def TypeKind.name : TypeKind → String
  | .scalar => "SCALAR"
  | .object => "OBJECT"
  | .interface => "INTERFACE"
  | .union => "UNION"
  | .enum => "ENUM"
  | .inputObject => "INPUT_OBJECT"
  | .list => "LIST"
  | .nonNull => "NON_NULL"

/-- The kind of the outermost wrapper, if there is one. -/
def TypeRef.kind? : TypeRef → Option TypeKind
  | .named _ => none
  | .list _ => some .list
  | .nonNull _ => some .nonNull

/-- An argument of a field, or a field of an input object. -/
structure InputValue where
  name : String
  description : Option String
  type : TypeRef
  /-- The default as it is written in a schema. -/
  default? : Option String
deriving DecidableEq

namespace InputValue

/-- An input value without a description and a default. -/
def ofType (name : String) (type : TypeRef) : InputValue := ⟨name, none, type, none⟩

/-- The input value with a default. -/
def withDefault (input : InputValue) (text : String) : InputValue := { input with default? := some text }

/-- A request must supply the value. -/
def isRequired (input : InputValue) : Bool := input.type.isNonNull && input.default?.isNone

end InputValue

/-- A field of an object or an interface. -/
structure FieldDefinition where
  name : String
  description : Option String
  type : TypeRef
  arguments : Keyed InputValue
  deprecated : Bool
  deprecationReason : Option String

namespace FieldDefinition

/-- A field without arguments. -/
def ofType (name : String) (type : TypeRef) : FieldDefinition := ⟨name, none, type, .empty, false, none⟩

/-- The field with one more argument, or with an argument replaced. -/
def withArgument (field : FieldDefinition) (argument : InputValue) : FieldDefinition :=
  { field with arguments := field.arguments.insert argument.name argument }

end FieldDefinition

/-- A scalar type. -/
structure ScalarType where
  name : String
  description : Option String

/-- An object type. -/
structure ObjectType where
  name : String
  description : Option String
  fields : Keyed FieldDefinition
  interfaces : List String

namespace ObjectType

/-- An object type without fields. -/
def named (name : String) : ObjectType := ⟨name, none, .empty, []⟩

/-- The type with one more field, or with a field replaced. -/
def withField (type : ObjectType) (field : FieldDefinition) : ObjectType :=
  { type with fields := type.fields.insert field.name field }

/-- The type with one more interface. -/
def withInterface (type : ObjectType) (name : String) : ObjectType :=
  { type with interfaces := type.interfaces ++ [name] }

end ObjectType

/-- An interface type. -/
structure InterfaceType where
  name : String
  description : Option String
  fields : Keyed FieldDefinition
  interfaces : List String

namespace InterfaceType

/-- An interface type without fields. -/
def named (name : String) : InterfaceType := ⟨name, none, .empty, []⟩

/-- The type with one more field, or with a field replaced. -/
def withField (type : InterfaceType) (field : FieldDefinition) : InterfaceType :=
  { type with fields := type.fields.insert field.name field }

end InterfaceType

/-- A union type. -/
structure UnionType where
  name : String
  description : Option String
  members : List String

/-- A name is among the members of a union. -/
def UnionType.hasMember (type : UnionType) (name : String) : Bool := type.members.contains name

/-- A value of an enum type. -/
structure EnumValue where
  name : String
  description : Option String
  deprecated : Bool
  deprecationReason : Option String

/-- An enum value without a description. -/
def EnumValue.named (name : String) : EnumValue := ⟨name, none, false, none⟩

/-- An enum type. -/
structure EnumType where
  name : String
  description : Option String
  values : List EnumValue

namespace EnumType

/-- An enum type with the given values. -/
def ofList (name : String) (values : List String) : EnumType := ⟨name, none, values.map .named⟩

/-- A name is the name of a value. -/
def hasValue (type : EnumType) (name : String) : Bool := type.values.any fun value => value.name == name

end EnumType

/-- An input object type. -/
structure InputObjectType where
  name : String
  description : Option String
  fields : Keyed InputValue

namespace InputObjectType

/-- An input object type without fields. -/
def named (name : String) : InputObjectType := ⟨name, none, .empty⟩

/-- The type with one more field, or with a field replaced. -/
def withField (type : InputObjectType) (field : InputValue) : InputObjectType :=
  { type with fields := type.fields.insert field.name field }

end InputObjectType

/-- A named type. -/
inductive TypeDefinition where
  | scalar (type : ScalarType)
  | object (type : ObjectType)
  | interface (type : InterfaceType)
  | union (type : UnionType)
  | enum (type : EnumType)
  | inputObject (type : InputObjectType)

namespace TypeDefinition

/-- The definition's own name. -/
def name : TypeDefinition → String
  | .scalar type => type.name
  | .object type => type.name
  | .interface type => type.name
  | .union type => type.name
  | .enum type => type.name
  | .inputObject type => type.name

/-- The kind of a definition. -/
def kind : TypeDefinition → TypeKind
  | .scalar _ => .scalar
  | .object _ => .object
  | .interface _ => .interface
  | .union _ => .union
  | .enum _ => .enum
  | .inputObject _ => .inputObject

/-- The fields of an object or an interface. -/
def fields? : TypeDefinition → Option (Keyed FieldDefinition)
  | .object type => some type.fields
  | .interface type => some type.fields
  | _ => none

/-- The declared field with a name. -/
def field? (type : TypeDefinition) (name : String) : Option FieldDefinition :=
  type.fields?.bind fun fields => fields.get? name

/-- A selection set can be written against the type. -/
def hasSubfields : TypeDefinition → Bool
  | .object _ | .interface _ | .union _ => true
  | _ => false

/-- The type stands for several object types. -/
def isAbstract : TypeDefinition → Bool
  | .interface _ | .union _ => true
  | _ => false

end TypeDefinition

end GraphQL
