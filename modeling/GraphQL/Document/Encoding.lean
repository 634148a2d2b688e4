import GraphQL.Document.Basic

/-!
The encoding of documents as JSON. A node is an object with all its fields, a
missing one as `null`; an alternative is an object with one member named for
it, and a literal with a value and a position holds both in an array.
-/

namespace GraphQL

/-- The encoding of a name. -/
def Name.toJson (name : Name) : Json :=
  .object [("value", .string name.value), ("pos", name.pos.toJson)]

/-- The encoding of an alternative. -/
def Json.variant (tag : String) (body : Json) : Json := .object [(tag, body)]

mutual

/-- The encoding of a literal. -/
def Literal.toJson : Literal → Json
  | .var name => .variant "Variable" name.toJson
  | .int n p => .variant "Int" (.array [.int n.toInt, p.toJson])
  | .float x p => .variant "Float" (.array [.ofFloat x, p.toJson])
  | .string s p => .variant "String" (.array [.string s, p.toJson])
  | .bool b p => .variant "Boolean" (.array [.bool b, p.toJson])
  | .null p => .variant "Null" p.toJson
  | .enum name => .variant "Enum" name.toJson
  | .list items p => .variant "List" (.array [.array (itemsToJson items), p.toJson])
  | .object fields p => .variant "Object" (.array [.array (fieldsToJson fields), p.toJson])

/-- The encoding of each item. -/
def Literal.itemsToJson : List Literal → List Json
  | [] => []
  | item :: items => item.toJson :: itemsToJson items

/-- The encoding of each field, a pair of name and value. -/
def Literal.fieldsToJson : List (Name × Literal) → List Json
  | [] => []
  | (name, value) :: fields => .array [name.toJson, value.toJson] :: fieldsToJson fields

end

/-- The encoding of an argument. -/
def Argument.toJson (argument : Argument) : Json :=
  .object [("name", argument.name.toJson), ("value", argument.value.toJson), ("pos", argument.pos.toJson)]

/-- The encoding of a fragment spread. -/
def FragmentSpread.toJson (spread : FragmentSpread) : Json :=
  .object [("name", spread.name.toJson), ("pos", spread.pos.toJson)]

mutual

/-- The encoding of a selection. -/
def Selection.toJson : Selection → Json
  | .field field => .variant "Field" field.toJson
  | .spread spread => .variant "FragmentSpread" spread.toJson
  | .inline fragment => .variant "InlineFragment" fragment.toJson

/-- The encoding of a field selection. -/
def FieldSelection.toJson : FieldSelection → Json
  | ⟨aliasName, name, arguments, set, pos⟩ =>
    .object [("alias", .ofOption Name.toJson aliasName), ("name", name.toJson),
      ("arguments", .array (arguments.map Argument.toJson)),
      ("selection_set", SelectionSet.optionToJson set), ("pos", pos.toJson)]

/-- The encoding of an inline fragment. -/
def InlineFragment.toJson : InlineFragment → Json
  | ⟨condition, set, pos⟩ =>
    .object [("type_condition", .ofOption Name.toJson condition), ("selection_set", set.toJson),
      ("pos", pos.toJson)]

/-- The encoding of a selection set. -/
def SelectionSet.toJson : SelectionSet → Json
  | ⟨selections, pos⟩ =>
    .object [("selections", .array (Selection.listToJson selections)), ("pos", pos.toJson)]

/-- The encoding of a selection set that a leaf lacks. -/
def SelectionSet.optionToJson : Option SelectionSet → Json
  | none => .null
  | some set => set.toJson

/-- The encoding of each selection. -/
def Selection.listToJson : List Selection → List Json
  | [] => []
  | selection :: selections => selection.toJson :: Selection.listToJson selections

end

/-- The encoding of a variable definition. -/
def VariableDefinition.toJson (definition : VariableDefinition) : Json :=
  .object [("name", definition.name.toJson),
    ("default_value", .ofOption Literal.toJson definition.default?), ("pos", definition.pos.toJson)]

/-- The encoding of an operation. -/
def Operation.toJson (operation : Operation) : Json :=
  .object [("operation", .string operation.kind.keyword), ("name", .ofOption Name.toJson operation.name),
    ("variables", .array (operation.variableDefinitions.map VariableDefinition.toJson)),
    ("selection_set", operation.selectionSet.toJson), ("pos", operation.pos.toJson)]

/-- The encoding of a fragment definition. -/
def FragmentDefinition.toJson (fragment : FragmentDefinition) : Json :=
  .object [("name", fragment.name.toJson), ("type_condition", fragment.typeCondition.toJson),
    ("selection_set", fragment.selectionSet.toJson), ("pos", fragment.pos.toJson)]

/-- The encoding of a definition. -/
def Definition.toJson : Definition → Json
  | .operation definition => .variant "Operation" definition.toJson
  | .fragment definition => .variant "Fragment" definition.toJson

/-- The encoding of a document. -/
def Document.toJson (document : Document) : Json :=
  .object [("definitions", .array (document.definitions.map Definition.toJson))]

end GraphQL
