import GraphQL.Document.Basic

/-!
Building documents by hand. New nodes have the unknown position until they are
placed. A name given to a node that is already placed takes the node's position
at that moment, so the order of the calls matters.
-/

namespace GraphQL

namespace Name

/-- A name at the unknown position. -/
def bare (value : String) : Name := ⟨value, .unknown⟩

end Name

namespace Literal

/-- An object literal with names at the unknown position. -/
def ofFields (fields : List (String × Literal)) : Literal :=
  .object (fields.map fun field => (.bare field.1, field.2)) .unknown

/-- The literal moved to a position; what it holds stays where it was. -/
def placed (literal : Literal) (p : Position) : Literal :=
  match literal with
  | .var name => .var { name with pos := p }
  | .int n _ => .int n p
  | .float x _ => .float x p
  | .string s _ => .string s p
  | .bool b _ => .bool b p
  | .null _ => .null p
  | .enum name => .enum { name with pos := p }
  | .list items _ => .list items p
  | .object fields _ => .object fields p

end Literal

/-- A selection set at the unknown position. -/
def SelectionSet.ofList (selections : List Selection) : SelectionSet := ⟨selections, .unknown⟩

namespace FieldSelection

/-- A leaf without arguments. -/
def named (name : String) : FieldSelection := ⟨none, .bare name, [], none, .unknown⟩

/-- The field under another response key. -/
def renamed (field : FieldSelection) (key : String) : FieldSelection :=
  { field with aliasName := some ⟨key, field.pos⟩ }

/-- The field with one more argument, which stands where its value does. -/
def withArgument (field : FieldSelection) (name : String) (value : Literal) : FieldSelection :=
  { field with arguments := field.arguments ++ [⟨⟨name, value.pos⟩, value, value.pos⟩] }

/-- The field with a selection set. -/
def selecting (field : FieldSelection) (selections : List Selection) : FieldSelection :=
  { field with selectionSet := some (.ofList selections) }

/-- The field and its name moved to a position. -/
def placed (field : FieldSelection) (p : Position) : FieldSelection :=
  { field with pos := p, name := { field.name with pos := p } }

@[simp] theorem selections_named (name : String) : (named name).selections = [] := rfl

@[simp] theorem selections_withArgument (field : FieldSelection) (name : String) (value : Literal) :
    (field.withArgument name value).selections = field.selections := rfl

@[simp] theorem selections_selecting (field : FieldSelection) (selections : List Selection) :
    (field.selecting selections).selections = selections := rfl

end FieldSelection

namespace FragmentSpread

/-- A spread of a fragment. -/
def named (name : String) : FragmentSpread := ⟨.bare name, .unknown⟩

/-- The spread moved to a position; its name stays where it was. -/
def placed (spread : FragmentSpread) (p : Position) : FragmentSpread := { spread with pos := p }

end FragmentSpread

namespace InlineFragment

/-- An inline fragment. -/
def ofList (condition : Option String) (selections : List Selection) : InlineFragment :=
  ⟨condition.map .bare, .ofList selections, .unknown⟩

/-- The inline fragment moved to a position. -/
def placed (fragment : InlineFragment) (p : Position) : InlineFragment := { fragment with pos := p }

@[simp] theorem selections_ofList (condition : Option String) (selections : List Selection) :
    (ofList condition selections).selections = selections := rfl

end InlineFragment

namespace FragmentDefinition

/-- A fragment definition. -/
def ofList (name condition : String) (selections : List Selection) : FragmentDefinition :=
  ⟨.bare name, .bare condition, .ofList selections, .unknown⟩

/-- The fragment definition and its name moved to a position. -/
def placed (fragment : FragmentDefinition) (p : Position) : FragmentDefinition :=
  { fragment with pos := p, name := { fragment.name with pos := p } }

end FragmentDefinition

namespace Operation

/-- An operation without a name. -/
def ofList (kind : OperationKind) (selections : List Selection) : Operation :=
  ⟨kind, none, [], .ofList selections, .unknown⟩

/-- The operation with a name. -/
def named (operation : Operation) (name : String) : Operation :=
  { operation with name := some ⟨name, operation.pos⟩ }

/-- The operation with one more variable. -/
def withVariable (operation : Operation) (name : String) (default? : Option Literal) : Operation :=
  { operation with
    variableDefinitions := operation.variableDefinitions ++ [⟨.bare name, default?, .unknown⟩] }

/-- The operation moved to a position. -/
def placed (operation : Operation) (p : Position) : Operation := { operation with pos := p }

@[simp] theorem selections_ofList (kind : OperationKind) (selections : List Selection) :
    (ofList kind selections).selections = selections := rfl

end Operation

end GraphQL
