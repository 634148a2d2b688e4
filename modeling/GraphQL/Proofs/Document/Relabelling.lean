import GraphQL.Diagnostic
import GraphQL.Document.Selecting
import GraphQL.Fragment.Table

/-!
# Documents — other positions

A document with every position in it replaced (`Document.relabel`), by any
function at all: nodes that had different positions may share one afterwards.
What is read off a document without its positions stays the same, and each part
of the relabelled document is the relabelled part.
-/

namespace GraphQL

variable (f : Position → Position)

/-! ## Relabelling -/

/-- The name at the new position. -/
def Name.relabel (name : Name) : Name := ⟨name.value, f name.pos⟩

mutual

/-- The literal with all positions in it replaced. -/
def Literal.relabel : Literal → Literal
  | .var name => .var (name.relabel f)
  | .int n p => .int n (f p)
  | .float x p => .float x (f p)
  | .string s p => .string s (f p)
  | .bool b p => .bool b (f p)
  | .null p => .null (f p)
  | .enum name => .enum (name.relabel f)
  | .list items p => .list (Literal.relabelItems items) (f p)
  | .object fields p => .object (Literal.relabelFields fields) (f p)

/-- The items with all positions in them replaced. -/
def Literal.relabelItems : List Literal → List Literal
  | [] => []
  | item :: items => item.relabel :: Literal.relabelItems items

/-- The fields with all positions in them replaced. -/
def Literal.relabelFields : List (Name × Literal) → List (Name × Literal)
  | [] => []
  | (name, value) :: fields => (name.relabel f, value.relabel) :: Literal.relabelFields fields

end

/-- The argument with all positions in it replaced. -/
def Argument.relabel (argument : Argument) : Argument :=
  ⟨argument.name.relabel f, argument.value.relabel f, f argument.pos⟩

/-- The spread with all positions in it replaced. -/
def FragmentSpread.relabel (spread : FragmentSpread) : FragmentSpread :=
  ⟨spread.name.relabel f, f spread.pos⟩

mutual

/-- The selection with all positions in it replaced. -/
def Selection.relabel : Selection → Selection
  | .field ⟨aliasName, name, arguments, none, p⟩ =>
    .field ⟨aliasName.map (Name.relabel f), name.relabel f, arguments.map (Argument.relabel f), none,
      f p⟩
  | .field ⟨aliasName, name, arguments, some ⟨selections, q⟩, p⟩ =>
    .field ⟨aliasName.map (Name.relabel f), name.relabel f, arguments.map (Argument.relabel f),
      some ⟨Selection.relabelList selections, f q⟩, f p⟩
  | .spread named => .spread (named.relabel f)
  | .inline ⟨condition, ⟨selections, q⟩, p⟩ =>
    .inline ⟨condition.map (Name.relabel f), ⟨Selection.relabelList selections, f q⟩, f p⟩

/-- The selections with all positions in them replaced. -/
def Selection.relabelList : List Selection → List Selection
  | [] => []
  | selection :: selections => selection.relabel :: Selection.relabelList selections

end

/-- The selection set with all positions in it replaced. -/
def SelectionSet.relabel (set : SelectionSet) : SelectionSet :=
  ⟨set.selections.map (Selection.relabel f), f set.pos⟩

/-- The field selection with all positions in it replaced. -/
def FieldSelection.relabel (field : FieldSelection) : FieldSelection :=
  ⟨field.aliasName.map (Name.relabel f), field.name.relabel f,
    field.arguments.map (Argument.relabel f), field.selectionSet.map (SelectionSet.relabel f),
    f field.pos⟩

/-- The inline fragment with all positions in it replaced. -/
def InlineFragment.relabel (fragment : InlineFragment) : InlineFragment :=
  ⟨fragment.typeCondition.map (Name.relabel f), fragment.selectionSet.relabel f, f fragment.pos⟩

/-- The variable definition with all positions in it replaced. -/
def VariableDefinition.relabel (definition : VariableDefinition) : VariableDefinition :=
  ⟨definition.name.relabel f, definition.default?.map (Literal.relabel f), f definition.pos⟩

/-- The operation with all positions in it replaced. -/
def Operation.relabel (operation : Operation) : Operation :=
  ⟨operation.kind, operation.name.map (Name.relabel f),
    operation.variableDefinitions.map (VariableDefinition.relabel f),
    operation.selectionSet.relabel f, f operation.pos⟩

/-- The fragment definition with all positions in it replaced. -/
def FragmentDefinition.relabel (fragment : FragmentDefinition) : FragmentDefinition :=
  ⟨fragment.name.relabel f, fragment.typeCondition.relabel f, fragment.selectionSet.relabel f,
    f fragment.pos⟩

/-- The definition with all positions in it replaced. -/
def Definition.relabel : Definition → Definition
  | .operation definition => .operation (definition.relabel f)
  | .fragment definition => .fragment (definition.relabel f)

/-- The document with all positions in it replaced. -/
def Document.relabel (document : Document) : Document :=
  ⟨document.definitions.map (Definition.relabel f)⟩

/-- The fragment table with all positions in it replaced. -/
def FragmentTable.relabel (table : FragmentTable) : FragmentTable :=
  ⟨table.definitions.map (FragmentDefinition.relabel f)⟩

/-- The diagnostic at the new positions. -/
def Diagnostic.relabel (diagnostic : Diagnostic) : Diagnostic :=
  ⟨diagnostic.message, diagnostic.locations.map f⟩

/-! ## Names and literals -/

@[simp] theorem Name.value_relabel (name : Name) : (name.relabel f).value = name.value := rfl

@[simp] theorem Name.pos_relabel (name : Name) : (name.relabel f).pos = f name.pos := rfl

namespace Literal

@[simp] theorem relabelItems_eq (items : List Literal) :
    relabelItems f items = items.map (relabel f) := by
  induction items with
  | nil => rfl
  | cons item items ih => rw [relabelItems, ih, List.map_cons]

@[simp] theorem relabelFields_eq (fields : List (Name × Literal)) :
    relabelFields f fields = fields.map (Prod.map (Name.relabel f) (relabel f)) := by
  induction fields with
  | nil => rfl
  | cons field fields ih => rw [relabelFields, ih, List.map_cons, Prod.map]

@[simp] theorem pos_relabel (literal : Literal) : (literal.relabel f).pos = f literal.pos := by
  cases literal <;> rfl

@[simp] theorem kindName_relabel (literal : Literal) :
    (literal.relabel f).kindName = literal.kindName := by
  cases literal <;> rfl

mutual

/-- A literal is written the same wherever it stands. -/
theorem display_relabel (literal : Literal) : (literal.relabel f).display = literal.display := by
  cases literal with
  | list items p => rw [relabel, display, display, displayItems_relabel]
  | object fields p => rw [relabel, display, display, displayFields_relabel]
  | _ => rfl
termination_by sizeOf literal

theorem displayItems_relabel (items : List Literal) :
    displayItems (relabelItems f items) = displayItems items := by
  cases items with
  | nil => rfl
  | cons item items =>
    cases items with
    | nil => exact display_relabel item
    | cons other others =>
      have rest : displayItems (relabelItems f (other :: others)) = _ :=
        displayItems_relabel (other :: others)
      show (item.relabel f).display ++ ", " ++ displayItems (relabelItems f (other :: others)) = _
      rw [display_relabel item, rest]
      rfl
termination_by sizeOf items

theorem displayFields_relabel (fields : List (Name × Literal)) :
    displayFields (relabelFields f fields) = displayFields fields := by
  match fields with
  | [] => rfl
  | [(name, value)] =>
    show name.value ++ ": " ++ (value.relabel f).display = _
    rw [display_relabel value]
    rfl
  | (name, value) :: other :: others =>
    have rest := displayFields_relabel (other :: others)
    show name.value ++ ": " ++ (value.relabel f).display ++ ", " ++
      displayFields (relabelFields f (other :: others)) = _
    rw [display_relabel value, rest]
    rfl
termination_by sizeOf fields

end

attribute [simp] display_relabel

@[simp] theorem plainText_relabel (literal : Literal) :
    (literal.relabel f).plainText = literal.plainText := by
  cases literal with
  | string s p => rfl
  | _ => exact display_relabel f _

@[simp] theorem widened_relabel (literal : Literal) :
    (literal.relabel f).widened = literal.widened.relabel f := by
  cases literal <;> rfl

end Literal

/-! ## Selections -/

@[simp] theorem Argument.name_relabel (argument : Argument) :
    (argument.relabel f).name.value = argument.name.value := rfl

@[simp] theorem FragmentSpread.name_relabel (spread : FragmentSpread) :
    (spread.relabel f).name.value = spread.name.value := rfl

@[simp] theorem FieldSelection.name_relabel (field : FieldSelection) :
    (field.relabel f).name.value = field.name.value := rfl

@[simp] theorem FragmentDefinition.name_relabel (fragment : FragmentDefinition) :
    (fragment.relabel f).name.value = fragment.name.value := rfl

namespace Selection

@[simp] theorem relabelList_eq (selections : List Selection) :
    relabelList f selections = selections.map (relabel f) := by
  induction selections with
  | nil => rfl
  | cons selection selections ih => rw [relabelList, ih, List.map_cons]

@[simp] theorem relabel_field (field : FieldSelection) :
    (Selection.field field).relabel f = .field (field.relabel f) := by
  obtain ⟨aliasName, name, arguments, set, p⟩ := field
  cases set with
  | none => simp [relabel, FieldSelection.relabel]
  | some set =>
    obtain ⟨selections, q⟩ := set
    simp [relabel, FieldSelection.relabel, SelectionSet.relabel]

@[simp] theorem relabel_spread (spread : FragmentSpread) :
    (Selection.spread spread).relabel f = .spread (spread.relabel f) := by
  rw [relabel]

@[simp] theorem relabel_inline (fragment : InlineFragment) :
    (Selection.inline fragment).relabel f = .inline (fragment.relabel f) := by
  obtain ⟨condition, ⟨selections, q⟩, p⟩ := fragment
  simp [relabel, InlineFragment.relabel, SelectionSet.relabel]

end Selection

@[simp] theorem FieldSelection.selections_relabel (field : FieldSelection) :
    (field.relabel f).selections = field.selections.map (Selection.relabel f) := by
  obtain ⟨aliasName, name, arguments, set, p⟩ := field
  cases set <;> rfl

@[simp] theorem FieldSelection.responseKey_relabel (field : FieldSelection) :
    (field.relabel f).responseKey = field.responseKey := by
  obtain ⟨aliasName, name, arguments, set, p⟩ := field
  cases aliasName <;> rfl

@[simp] theorem InlineFragment.selections_relabel (fragment : InlineFragment) :
    (fragment.relabel f).selections = fragment.selections.map (Selection.relabel f) := rfl

@[simp] theorem Operation.selections_relabel (operation : Operation) :
    (operation.relabel f).selections = operation.selections.map (Selection.relabel f) := rfl

@[simp] theorem FragmentDefinition.selections_relabel (fragment : FragmentDefinition) :
    (fragment.relabel f).selections = fragment.selections.map (Selection.relabel f) := rfl

/-! ## Documents and tables -/

namespace Document

@[simp] theorem operations_relabel (document : Document) :
    (document.relabel f).operations = document.operations.map (Operation.relabel f) := by
  simp only [operations, relabel, List.filterMap_map, List.map_filterMap]
  congr 1
  funext definition
  cases definition <;> rfl

@[simp] theorem fragments_relabel (document : Document) :
    (document.relabel f).fragments = document.fragments.map (FragmentDefinition.relabel f) := by
  simp only [fragments, relabel, List.filterMap_map, List.map_filterMap]
  congr 1
  funext definition
  cases definition <;> rfl

end Document

namespace FragmentTable

@[simp] theorem ofDocument_relabel (document : Document) :
    ofDocument (document.relabel f) = (ofDocument document).relabel f := by
  simp [ofDocument, relabel]

@[simp] theorem get?_relabel (table : FragmentTable) (name : String) :
    (table.relabel f).get? name = (table.get? name).map (FragmentDefinition.relabel f) := by
  rw [get?, relabel, List.find?_map]
  rfl

end FragmentTable

end GraphQL
