import GraphQL.Document.Basic

/-!
# Documents — places of literals

Where a literal stands in a document, by indices: the definition, the
selections that enclose its field from the outside in, the field among its
siblings, the argument, and the list items that enclose the literal. A place
is about the written text only. It does not follow spreads.
-/

namespace GraphQL

namespace Literal

/-- The literal reached through list items with the given indices. -/
def at? : Literal → List Nat → Option Literal
  | literal, [] => some literal
  | .list items _, i :: path => items[i]?.bind fun item => item.at? path
  | _, _ :: _ => none

@[simp] theorem at?_nil (literal : Literal) : literal.at? [] = some literal := rfl

@[simp] theorem at?_list (items : List Literal) (p : Position) (i : Nat) (path : List Nat) :
    (Literal.list items p).at? (i :: path) = items[i]?.bind fun item => item.at? path := rfl

theorem at?_cons_of_ne_list {literal : Literal} (h : ∀ items p, literal ≠ .list items p) (i : Nat)
    (path : List Nat) : literal.at? (i :: path) = none := by
  cases literal with
  | list items p => exact absurd rfl (h items p)
  | _ => rfl

end Literal

namespace Selection

/-- The selections written between the braces of a selection. -/
def enclosed : Selection → List Selection
  | .field selected => selected.selections
  | .inline fragment => fragment.selections
  | .spread _ => []

/-- What a selection encloses is smaller than the selection. -/
theorem sizeOf_enclosed_lt (selection : Selection) :
    sizeOf selection.enclosed < sizeOf selection := by
  cases selection with
  | field field =>
    have := field.sizeOf_selections_lt
    simp [enclosed]
    omega
  | inline fragment =>
    have := fragment.sizeOf_selections_lt
    simp [enclosed]
    omega
  | spread spread =>
    obtain ⟨name, p⟩ := spread
    simp only [enclosed, List.nil.sizeOf_spec, spread.sizeOf_spec, FragmentSpread.mk.sizeOf_spec]
    omega

theorem sizeOf_lt_of_mem_enclosed {selection inner : Selection} (hm : inner ∈ selection.enclosed) :
    sizeOf inner < sizeOf selection :=
  Nat.lt_trans (List.sizeOf_lt_of_mem hm) selection.sizeOf_enclosed_lt

/-- The selections below the selections with the given indices. -/
def listAt? : List Selection → List Nat → Option (List Selection)
  | selections, [] => some selections
  | selections, i :: path => selections[i]?.bind fun selection => listAt? selection.enclosed path

@[simp] theorem listAt?_nil (selections : List Selection) :
    listAt? selections [] = some selections := rfl

@[simp] theorem listAt?_cons (selections : List Selection) (i : Nat) (path : List Nat) :
    listAt? selections (i :: path) =
      selections[i]?.bind fun selection => listAt? selection.enclosed path := rfl

theorem listAt?_append (selections : List Selection) (path rest : List Nat) :
    listAt? selections (path ++ rest) =
      (listAt? selections path).bind fun inner => listAt? inner rest := by
  induction path generalizing selections with
  | nil => simp
  | cons i path ih =>
    rw [List.cons_append, listAt?_cons, listAt?_cons, Option.bind_assoc]
    congr 1
    funext selection
    exact ih selection.enclosed

/-- The argument with an index, if the selection is a field. -/
def argument? (selection : Selection) (i : Nat) : Option Argument :=
  match selection with
  | .field selected => selected.arguments[i]?
  | _ => none

end Selection

/-- The selections of a definition. -/
def Definition.selections : Definition → List Selection
  | .operation definition => definition.selections
  | .fragment definition => definition.selections

/-- Where a literal stands in a document. -/
structure Place where
  definition : Nat
  enclosing : List Nat
  selection : Nat
  argument : Nat
  items : List Nat

namespace Document

/-- The selections at some depth of a definition. -/
def selectionsAt? (document : Document) (d : Nat) (path : List Nat) : Option (List Selection) :=
  document.definitions[d]?.bind fun definition => Selection.listAt? definition.selections path

/-- The selection at a place. -/
def selectionAt? (document : Document) (place : Place) : Option Selection :=
  (document.selectionsAt? place.definition place.enclosing).bind fun selections =>
    selections[place.selection]?

/-- The argument at a place. -/
def argumentAt? (document : Document) (place : Place) : Option Argument :=
  (document.selectionAt? place).bind fun selection => selection.argument? place.argument

/-- The literal at a place. -/
def literalAt? (document : Document) (place : Place) : Option Literal :=
  (document.argumentAt? place).bind fun argument => argument.value.at? place.items

end Document

end GraphQL
