import GraphQL.Proofs.Document.Place
import Mathlib.Data.List.Basic

/-!
# Documents — integers made floats at chosen places

A document in which the integers at chosen places are floats of the same value
at the same position, and in which nothing else differs: every other node is
put together again from its own parts. Places are reached through list literals
only, so what is inside an object literal, and the default of a variable, is at
no place.
-/

namespace GraphQL

namespace Literal

mutual

/-- The literal with the integers at the chosen paths of list items as floats. -/
def widenedWhere (chosen : List Nat → Bool) : Literal → Literal
  | .int n p => if chosen [] then .float (Float.ofInt n.toInt) p else .int n p
  | .list items p => .list (widenedItems chosen 0 items) p
  | literal => literal

/-- The items, the first of which has the given index. -/
def widenedItems (chosen : List Nat → Bool) (i : Nat) : List Literal → List Literal
  | [] => []
  | item :: items =>
    item.widenedWhere (fun path => chosen (i :: path)) :: widenedItems chosen (i + 1) items

end

end Literal

/-- The argument with the integers at the chosen paths in its value as floats. -/
def Argument.widenedWhere (chosen : List Nat → Bool) (argument : Argument) : Argument :=
  { argument with value := argument.value.widenedWhere chosen }

namespace Selection

mutual

/-- The selection with a given index among its siblings, with the integers at
the chosen places in it as floats. A place is chosen by the indices of the
selections that enclose its field, the index of the field, the index of the
argument and the path in its value. -/
def widenedWhere (chosen : List Nat → Nat → Nat → List Nat → Bool) (i : Nat) :
    Selection → Selection
  | .field ⟨aliasName, name, arguments, none, p⟩ =>
    .field ⟨aliasName, name, arguments.mapIdx fun j => Argument.widenedWhere (chosen [] i j), none, p⟩
  | .field ⟨aliasName, name, arguments, some ⟨selections, q⟩, p⟩ =>
    .field ⟨aliasName, name, arguments.mapIdx fun j => Argument.widenedWhere (chosen [] i j),
      some ⟨listWidenedWhere (fun path => chosen (i :: path)) 0 selections, q⟩, p⟩
  | .spread named => .spread named
  | .inline ⟨condition, ⟨selections, q⟩, p⟩ =>
    .inline ⟨condition, ⟨listWidenedWhere (fun path => chosen (i :: path)) 0 selections, q⟩, p⟩

/-- The selections, the first of which has the given index. -/
def listWidenedWhere (chosen : List Nat → Nat → Nat → List Nat → Bool) (i : Nat) :
    List Selection → List Selection
  | [] => []
  | selection :: selections =>
    selection.widenedWhere chosen i :: listWidenedWhere chosen (i + 1) selections

end

end Selection

/-- The selection set with the integers at the chosen places in it as floats. -/
def SelectionSet.widenedWhere (chosen : List Nat → Nat → Nat → List Nat → Bool)
    (set : SelectionSet) : SelectionSet :=
  { set with selections := Selection.listWidenedWhere chosen 0 set.selections }

/-- The definition with the integers at the chosen places in it as floats. -/
def Definition.widenedWhere (chosen : List Nat → Nat → Nat → List Nat → Bool) :
    Definition → Definition
  | .operation definition =>
    .operation { definition with selectionSet := definition.selectionSet.widenedWhere chosen }
  | .fragment definition =>
    .fragment { definition with selectionSet := definition.selectionSet.widenedWhere chosen }

/-- The document with the integers at the chosen places as floats, and everything
else as it is. -/
def Document.widenedWhere (chosen : Place → Bool) (document : Document) : Document :=
  ⟨document.definitions.mapIdx fun d => Definition.widenedWhere fun enclosing selection argument items =>
    chosen ⟨d, enclosing, selection, argument, items⟩⟩

/-! ## Items and selections by their indices -/

theorem Literal.getElem?_widenedItems (chosen : List Nat → Bool) (start : Nat)
    (items : List Literal) (i : Nat) :
    (Literal.widenedItems chosen start items)[i]? =
      items[i]?.map (Literal.widenedWhere fun path => chosen ((start + i) :: path)) := by
  induction items generalizing start i with
  | nil => simp [Literal.widenedItems]
  | cons item items ih =>
    cases i with
    | zero => simp [Literal.widenedItems]
    | succ i =>
      rw [Literal.widenedItems, List.getElem?_cons_succ, List.getElem?_cons_succ, ih]
      simp only [Nat.add_assoc, Nat.add_comm 1 i]

theorem Selection.getElem?_listWidenedWhere
    (chosen : List Nat → Nat → Nat → List Nat → Bool) (start : Nat) (selections : List Selection)
    (i : Nat) :
    (Selection.listWidenedWhere chosen start selections)[i]? =
      selections[i]?.map (Selection.widenedWhere chosen (start + i)) := by
  induction selections generalizing start i with
  | nil => simp [Selection.listWidenedWhere]
  | cons selection selections ih =>
    cases i with
    | zero => simp [Selection.listWidenedWhere]
    | succ i =>
      rw [Selection.listWidenedWhere, List.getElem?_cons_succ, List.getElem?_cons_succ, ih]
      simp only [Nat.add_assoc, Nat.add_comm 1 i]

/-- A field is put together from its own parts. -/
theorem Selection.widenedWhere_field (chosen : List Nat → Nat → Nat → List Nat → Bool) (i : Nat)
    (field : FieldSelection) :
    (Selection.field field).widenedWhere chosen i = .field { field with
      arguments := field.arguments.mapIdx fun j => Argument.widenedWhere (chosen [] i j)
      selectionSet :=
        field.selectionSet.map (SelectionSet.widenedWhere fun path => chosen (i :: path)) } := by
  obtain ⟨aliasName, name, arguments, set, p⟩ := field
  cases set with
  | none => rw [Selection.widenedWhere, Option.map_none]
  | some set =>
    obtain ⟨selections, q⟩ := set
    rw [Selection.widenedWhere, Option.map_some, SelectionSet.widenedWhere]

theorem Selection.widenedWhere_inline (chosen : List Nat → Nat → Nat → List Nat → Bool) (i : Nat)
    (fragment : InlineFragment) :
    (Selection.inline fragment).widenedWhere chosen i = .inline { fragment with
      selectionSet :=
        fragment.selectionSet.widenedWhere fun path => chosen (i :: path) } := by
  obtain ⟨condition, ⟨selections, q⟩, p⟩ := fragment
  rw [Selection.widenedWhere, SelectionSet.widenedWhere]

theorem Selection.widenedWhere_spread (chosen : List Nat → Nat → Nat → List Nat → Bool) (i : Nat)
    (named : FragmentSpread) :
    (Selection.spread named).widenedWhere chosen i = .spread named := by
  rw [Selection.widenedWhere]

end GraphQL
