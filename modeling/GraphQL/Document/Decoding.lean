import GraphQL.Document.Basic
import GraphQL.Json.Reader

/-!
Decoding documents from JSON. The decoder takes more than the encoder writes:
absent options, members in any order, unknown members, and nodes written as
arrays of their fields. A value that encodes no document gives nothing.
-/

namespace GraphQL

/-- The name that a value encodes. -/
def Name.ofJson? (value : Json) : Option Name := do
  let [text, pos] ← value.fields? ["value", "pos"] | none
  return ⟨← Json.required? Json.string? text, ← Json.required? Position.ofJson? pos⟩

mutual

/-- The literal that a value encodes. -/
def Literal.ofJson? : Json → Option Literal
  | .object [(tag, body)] =>
    match tag, body with
    | "Variable", name => (Name.ofJson? name).map .var
    | "Int", .array [n, pos] => return .int (← n.int64?) (← Position.ofJson? pos)
    | "Float", .array [x, pos] => return .float (← x.float?) (← Position.ofJson? pos)
    | "String", .array [s, pos] => return .string (← s.string?) (← Position.ofJson? pos)
    | "Boolean", .array [b, pos] => return .bool (← b.bool?) (← Position.ofJson? pos)
    | "Null", pos => (Position.ofJson? pos).map .null
    | "Enum", name => (Name.ofJson? name).map .enum
    | "List", .array [.array items, pos] =>
      return .list (← itemsOfJson? items) (← Position.ofJson? pos)
    | "Object", .array [.array fields, pos] =>
      return .object (← fieldsOfJson? fields) (← Position.ofJson? pos)
    | _, _ => none
  | _ => none

/-- The items that values encode. -/
def Literal.itemsOfJson? : List Json → Option (List Literal)
  | [] => some []
  | item :: items => return (← ofJson? item) :: (← itemsOfJson? items)

/-- The fields that values encode, each a pair of name and value. -/
def Literal.fieldsOfJson? : List Json → Option (List (Name × Literal))
  | [] => some []
  | .array [name, value] :: fields =>
    return (← Name.ofJson? name, ← ofJson? value) :: (← fieldsOfJson? fields)
  | _ :: _ => none

end

/-- The argument that a value encodes. -/
def Argument.ofJson? (value : Json) : Option Argument := do
  let [name, literal, pos] ← value.fields? ["name", "value", "pos"] | none
  return ⟨← Json.required? Name.ofJson? name, ← Json.required? Literal.ofJson? literal,
    ← Json.required? Position.ofJson? pos⟩

/-- The fragment spread that a value encodes. -/
def FragmentSpread.ofJson? (value : Json) : Option FragmentSpread := do
  let [name, pos] ← value.fields? ["name", "pos"] | none
  return ⟨← Json.required? Name.ofJson? name, ← Json.required? Position.ofJson? pos⟩

mutual

/-- The selection that a value encodes. -/
def Selection.ofJson? (value : Json) : Option Selection :=
  match value.variant? with
  | some ("Field", ⟨body, _⟩) => (FieldSelection.ofJson? body).map .field
  | some ("FragmentSpread", ⟨body, _⟩) => (FragmentSpread.ofJson? body).map .spread
  | some ("InlineFragment", ⟨body, _⟩) => (InlineFragment.ofJson? body).map .inline
  | _ => none
termination_by sizeOf value

/-- The field selection that a value encodes. -/
def FieldSelection.ofJson? (value : Json) : Option FieldSelection :=
  match value.fields? ["alias", "name", "arguments", "selection_set", "pos"] with
  | some [aliasName, name, arguments, set, pos] => do
    return ⟨← Json.optional? Name.ofJson? aliasName, ← Json.required? Name.ofJson? name,
      ← Json.defaulted? (Json.list? Argument.ofJson?) [] arguments,
      ← match set with
        | none => some none
        | some ⟨.null, _⟩ => some none
        | some ⟨set, _⟩ => (SelectionSet.ofJson? set).map some,
      ← Json.required? Position.ofJson? pos⟩
  | _ => none
termination_by sizeOf value

/-- The inline fragment that a value encodes. -/
def InlineFragment.ofJson? (value : Json) : Option InlineFragment :=
  match value.fields? ["type_condition", "selection_set", "pos"] with
  | some [condition, some ⟨set, _⟩, pos] => do
    return ⟨← Json.optional? Name.ofJson? condition, ← SelectionSet.ofJson? set,
      ← Json.required? Position.ofJson? pos⟩
  | _ => none
termination_by sizeOf value

/-- The selection set that a value encodes. -/
def SelectionSet.ofJson? (value : Json) : Option SelectionSet :=
  match value.fields? ["selections", "pos"] with
  | some [some ⟨.array items, h⟩, pos] => do
    have : sizeOf items < sizeOf value := by simp at h; omega
    return ⟨← Selection.listOfJson? items, ← Json.required? Position.ofJson? pos⟩
  | _ => none
termination_by sizeOf value

/-- The selections that values encode. -/
def Selection.listOfJson? (values : List Json) : Option (List Selection) :=
  match values with
  | [] => some []
  | value :: values => do return (← Selection.ofJson? value) :: (← Selection.listOfJson? values)
termination_by sizeOf values

end

/-- The operation kind that a value encodes: its keyword, which may also be
written as an alternative that holds `null`. -/
def OperationKind.ofJson? (value : Json) : Option OperationKind :=
  match value with
  | .string keyword | .object [(keyword, .null)] =>
    [OperationKind.query, .mutation, .subscription].find? fun kind => kind.keyword == keyword
  | _ => none

/-- The variable definition that a value encodes. -/
def VariableDefinition.ofJson? (value : Json) : Option VariableDefinition := do
  let [name, default?, pos] ← value.fields? ["name", "default_value", "pos"] | none
  return ⟨← Json.required? Name.ofJson? name, ← Json.optional? Literal.ofJson? default?,
    ← Json.required? Position.ofJson? pos⟩

/-- The operation that a value encodes. -/
def Operation.ofJson? (value : Json) : Option Operation := do
  let [kind, name, definitions, set, pos] ←
    value.fields? ["operation", "name", "variables", "selection_set", "pos"] | none
  return ⟨← Json.required? OperationKind.ofJson? kind, ← Json.optional? Name.ofJson? name,
    ← Json.defaulted? (Json.list? VariableDefinition.ofJson?) [] definitions,
    ← Json.required? SelectionSet.ofJson? set, ← Json.required? Position.ofJson? pos⟩

/-- The fragment definition that a value encodes. -/
def FragmentDefinition.ofJson? (value : Json) : Option FragmentDefinition := do
  let [name, condition, set, pos] ←
    value.fields? ["name", "type_condition", "selection_set", "pos"] | none
  return ⟨← Json.required? Name.ofJson? name, ← Json.required? Name.ofJson? condition,
    ← Json.required? SelectionSet.ofJson? set, ← Json.required? Position.ofJson? pos⟩

/-- The definition that a value encodes. -/
def Definition.ofJson? (value : Json) : Option Definition :=
  match value.variant? with
  | some ("Operation", ⟨body, _⟩) => (Operation.ofJson? body).map .operation
  | some ("Fragment", ⟨body, _⟩) => (FragmentDefinition.ofJson? body).map .fragment
  | _ => none

/-- The document that a value encodes. -/
def Document.ofJson? (value : Json) : Option Document := do
  let [definitions] ← value.fields? ["definitions"] | none
  return ⟨← Json.required? (Json.list? Definition.ofJson?) definitions⟩

/-- The document that a text encodes. -/
def Document.ofText? (text : String) : Option Document :=
  (Json.readWithin? text).bind Document.ofJson?

end GraphQL
