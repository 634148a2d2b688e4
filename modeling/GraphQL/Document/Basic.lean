import GraphQL.Document.Literal

/-!
Executable documents: operations and fragment definitions, with the position
of every node. A document is plain data in the order it was written; names are
not resolved.
-/

namespace GraphQL

/-- The kinds of operation. -/
inductive OperationKind where
  | query
  | mutation
  | subscription
deriving DecidableEq

/-- The keyword of an operation kind. -/
def OperationKind.keyword : OperationKind → String
  | .query => "query"
  | .mutation => "mutation"
  | .subscription => "subscription"

/-- A named argument of a field. -/
structure Argument where
  name : Name
  value : Literal
  pos : Position

/-- A spread of a named fragment. -/
structure FragmentSpread where
  name : Name
  pos : Position
deriving DecidableEq

mutual

/-- One selection. -/
inductive Selection where
  | field (field : FieldSelection)
  | spread (spread : FragmentSpread)
  | inline (fragment : InlineFragment)

/-- A field selection; a leaf has no selection set. -/
structure FieldSelection where
  aliasName : Option Name
  name : Name
  arguments : List Argument
  selectionSet : Option SelectionSet
  pos : Position

/-- A fragment written in place, with or without a type condition. -/
structure InlineFragment where
  typeCondition : Option Name
  selectionSet : SelectionSet
  pos : Position

/-- The selections between two braces. -/
structure SelectionSet where
  selections : List Selection
  pos : Position

end

namespace FieldSelection

/-- The key that the field is reported under. -/
def responseKey (field : FieldSelection) : String :=
  (field.aliasName.getD field.name).value

/-- The selections of the field, none for a leaf. -/
def selections (field : FieldSelection) : List Selection :=
  match field.selectionSet with
  | some set => set.selections
  | none => []

end FieldSelection

/-- The selections of an inline fragment. -/
def InlineFragment.selections (fragment : InlineFragment) : List Selection :=
  fragment.selectionSet.selections

/-- A variable of an operation and its default, if it has one. -/
structure VariableDefinition where
  name : Name
  default? : Option Literal
  pos : Position

/-- An operation. -/
structure Operation where
  kind : OperationKind
  name : Option Name
  variableDefinitions : List VariableDefinition
  selectionSet : SelectionSet
  pos : Position

/-- The selections of an operation. -/
def Operation.selections (operation : Operation) : List Selection :=
  operation.selectionSet.selections

/-- A named fragment on a type. -/
structure FragmentDefinition where
  name : Name
  typeCondition : Name
  selectionSet : SelectionSet
  pos : Position

/-- The selections of a fragment definition. -/
def FragmentDefinition.selections (fragment : FragmentDefinition) : List Selection :=
  fragment.selectionSet.selections

/-- A definition of a document. -/
inductive Definition where
  | operation (operation : Operation)
  | fragment (fragment : FragmentDefinition)

/-- A document. -/
structure Document where
  definitions : List Definition

namespace Definition

/-- The operation that a definition is. -/
def operation? : Definition → Option Operation
  | .operation definition => some definition
  | .fragment _ => none

/-- The fragment definition that a definition is. -/
def fragment? : Definition → Option FragmentDefinition
  | .operation _ => none
  | .fragment definition => some definition

end Definition

namespace Document

/-- The operations in document order. -/
def operations (document : Document) : List Operation :=
  document.definitions.filterMap Definition.operation?

/-- The fragment definitions in document order. -/
def fragments (document : Document) : List FragmentDefinition :=
  document.definitions.filterMap Definition.fragment?

end Document

/-- The part of a field selection below it is smaller than the selection. -/
theorem FieldSelection.sizeOf_selections_lt (field : FieldSelection) :
    sizeOf field.selections < sizeOf field := by
  obtain ⟨aliasName, name, arguments, set, pos⟩ := field
  cases set with
  | none => simp [selections]; omega
  | some set =>
    obtain ⟨selections, p⟩ := set
    simp [FieldSelection.selections]
    omega

/-- The selections of an inline fragment are smaller than the fragment. -/
theorem InlineFragment.sizeOf_selections_lt (fragment : InlineFragment) :
    sizeOf fragment.selections < sizeOf fragment := by
  obtain ⟨condition, ⟨selections, p⟩, pos⟩ := fragment
  simp [InlineFragment.selections]
  omega

end GraphQL
