import GraphQL.Document.Selecting
import GraphQL.Proofs.Document.Place
import GraphQL.Proofs.Validation.Literal
import Mathlib.Data.List.Basic

/-!
# Validation — what widening does at a place

Widening types every definition by itself: the type of an operation is its
root type, that of a fragment its condition, and below them only declared
fields and conditions count (`declaredAt?`). An integer at a place becomes a
float exactly if this typing has a float there (`FloatDeclared`); otherwise
it stays an integer.
-/

namespace GraphQL.Validation

/-! ## Literals -/

theorem Leaf.at? {type : TypeRef} {literal leaf : Literal} {path : List Nat} {name : String}
    (h : Leaf type literal path name leaf) : literal.at? path = some leaf := by
  induction h with
  | named => exact Literal.at?_nil _
  | nonNull _ ih => exact ih
  | item hi _ ih => rw [Literal.at?_list, hi, Option.bind_some, ih]
  | single _ _ ih => exact ih

theorem widenLiteral_single (item : TypeRef) {literal : Literal}
    (hs : ∀ items p, literal ≠ .list items p) :
    widenLiteral (.list item) literal = widenLiteral item literal := by
  cases literal with
  | list items p => exact absurd rfl (hs items p)
  | _ => rfl

/-- Only integers and what is in lists change. -/
theorem widenLiteral_eq_self (type : TypeRef) {literal : Literal}
    (hi : ∀ n p, literal ≠ .int n p) (hl : ∀ items p, literal ≠ .list items p) :
    widenLiteral type literal = literal := by
  induction type with
  | named name =>
    cases literal with
    | int n p => exact absurd rfl (hi n p)
    | _ => simp [widenLiteral, Literal.widened, Literal.toFloat?]
  | nonNull inner ih => exact ih
  | list item ih => rw [widenLiteral_single item hl, ih]

/-- An integer that stands against `Float` becomes a float. -/
theorem Leaf.at?_widenLiteral {type : TypeRef} {literal leaf : Literal} {path : List Nat}
    (h : Leaf type literal path "Float" leaf) :
    (widenLiteral type literal).at? path = some leaf.widened := by
  generalize hn : "Float" = name at h
  induction h with
  | named => simp [widenLiteral, ← hn]
  | nonNull _ ih => exact ih hn
  | item hi _ ih => simp [widenLiteral, hi, ih hn]
  | single hs _ ih =>
    rw [widenLiteral_single _ hs]
    exact ih hn

/-- Any other integer stays one. -/
theorem at?_widenLiteral_of_not_leaf {type : TypeRef} {literal : Literal} {path : List Nat}
    {n : Int64} {p : Position} (hl : literal.at? path = some (.int n p))
    (h : ∀ leaf, ¬ Leaf type literal path "Float" leaf) :
    (widenLiteral type literal).at? path = some (.int n p) := by
  induction type generalizing literal path with
  | named name =>
    by_cases hn : name = "Float"
    · subst hn
      cases path with
      | nil => exact absurd (.named "Float" literal) (h literal)
      | cons i path =>
        cases literal with
        | list => simpa [widenLiteral, Literal.widened, Literal.toFloat?] using hl
        | _ => simp [Literal.at?_cons_of_ne_list] at hl
    · simpa [widenLiteral, hn] using hl
  | nonNull inner ih => exact ih hl fun leaf hf => h leaf (.nonNull hf)
  | list item ih =>
    by_cases hs : ∀ items p, literal ≠ .list items p
    · rw [widenLiteral_single item hs]
      exact ih hl fun leaf hf => h leaf (.single hs hf)
    · obtain ⟨items, q, rfl⟩ : ∃ items q, literal = .list items q := by simpa using hs
      cases path with
      | nil => simp at hl
      | cons i path =>
        simp only [Literal.at?_list, Option.bind_eq_some_iff] at hl
        obtain ⟨literal, hi, hl⟩ := hl
        simp only [widenLiteral, Literal.at?_list, List.getElem?_map, hi, Option.map_some,
          Option.bind_some]
        exact ih hl fun leaf hf => h leaf (.item hi hf)

/-- Without an integer against `Float` nothing changes. -/
theorem widenLiteral_eq_self_of_not_leaf {type : TypeRef} {literal : Literal}
    (h : ∀ n p path, ¬ Leaf type literal path "Float" (.int n p)) :
    widenLiteral type literal = literal := by
  induction type generalizing literal with
  | named name =>
    by_cases hi : name = "Float" ∧ ∃ n p, literal = .int n p
    · obtain ⟨rfl, n, p, rfl⟩ := hi
      exact absurd (.named "Float" _) (h n p [])
    · unfold widenLiteral
      split
      · cases literal with
        | int n p => exact absurd ⟨‹_›, n, p, rfl⟩ hi
        | _ => rfl
      · rfl
  | nonNull inner ih => exact ih fun n p path hl => h n p path (.nonNull hl)
  | list item ih =>
    by_cases hs : ∀ items p, literal ≠ .list items p
    · rw [widenLiteral_single item hs]
      exact ih fun n p path hl => h n p path (.single hs hl)
    · obtain ⟨items, q, rfl⟩ : ∃ items q, literal = .list items q := by simpa using hs
      have hmap : items.map (widenLiteral item) = items := by
        refine (List.map_congr_left ?_).trans (List.map_id items)
        intro literal hm
        obtain ⟨i, hi⟩ := List.getElem?_of_mem hm
        exact ih fun n p path hl => h n p (i :: path) (.item hi hl)
      rw [widenLiteral, hmap]

/-! ## Selections -/

/-- The declared type of what is below a selection made on `parent`. -/
def declaredType? (schema : Schema) (parent : TypeDefinition) : Selection → Option TypeDefinition
  | .field field =>
    (parent.field? field.name.value).bind fun definition => schema.type? definition.type.base
  | .inline fragment =>
    match fragment.typeCondition with
    | none => some parent
    | some condition => schema.type? condition.value
  | .spread _ => none

/-- The declared type of what is below the selections with the given indices. -/
def declaredAt? (schema : Schema) :
    Option TypeDefinition → List Selection → List Nat → Option TypeDefinition
  | type?, _, [] => type?
  | type?, selections, i :: path =>
    selections[i]?.bind fun selection =>
      declaredAt? schema (type?.bind fun type => declaredType? schema type selection)
        selection.enclosed path

theorem declaredAt?_snoc {schema : Schema} {type? : Option TypeDefinition}
    {selections inner : List Selection} {path : List Nat} {i : Nat} {selection : Selection}
    (hp : Selection.listAt? selections path = some inner) (hi : inner[i]? = some selection) :
    declaredAt? schema type? selections (path ++ [i]) =
      (declaredAt? schema type? selections path).bind fun type =>
        declaredType? schema type selection := by
  induction path generalizing type? selections with
  | nil =>
    cases hp
    simp [declaredAt?, hi]
  | cons j path ih =>
    obtain ⟨outer, ho, hp⟩ := Option.bind_eq_some_iff.1 hp
    rw [List.cons_append, declaredAt?, declaredAt?, ho, Option.bind_some, Option.bind_some, ih hp]

/-- Selections widened on a type, or left alone without one. -/
def widenOn (schema : Schema) (type? : Option TypeDefinition) (selections : List Selection) :
    List Selection :=
  type?.elim selections fun type => widenSelections schema type selections

variable {schema : Schema}

theorem widenSelections_eq (parent : TypeDefinition) (selections : List Selection) :
    widenSelections schema parent selections = selections.map (widenSelection schema parent) := by
  induction selections with
  | nil => simp [widenSelections]
  | cons selection selections ih => simp [widenSelections, ih]

theorem selections_widenSet (type? : Option TypeDefinition) (set : SelectionSet) :
    (widenSet schema type? set).selections = widenOn schema type? set.selections := by
  cases type? <;> rfl

/-- Widening a field widens its arguments as its declaration has them, and its
selections on its declared type. -/
theorem widenSelection_field (parent : TypeDefinition) (field : FieldSelection) :
    widenSelection schema parent (.field field) = .field { field with
      arguments := (parent.field? field.name.value).elim field.arguments fun definition =>
        field.arguments.map (widenArgument definition)
      selectionSet :=
        field.selectionSet.map (widenSet schema (declaredType? schema parent (.field field))) } := by
  obtain ⟨aliasName, name, arguments, set, p⟩ := field
  rw [widenSelection.eq_def]
  simp only [declaredType?]
  cases parent.field? name.value with
  | none => cases set <;> rfl
  | some definition =>
    cases ht : schema.type? definition.type.base with
    | none => cases set <;> simp [ht, widenSet]
    | some type =>
      cases set with
      | none => simp [ht]
      | some set =>
        obtain ⟨selections, q⟩ := set
        simp [ht, widenSet]

theorem widenSelection_inline (parent : TypeDefinition) (fragment : InlineFragment) :
    widenSelection schema parent (.inline fragment) = .inline { fragment with
      selectionSet :=
        widenSet schema (declaredType? schema parent (.inline fragment)) fragment.selectionSet } := by
  obtain ⟨condition, ⟨selections, q⟩, p⟩ := fragment
  rw [widenSelection.eq_def]
  cases condition with
  | none => rfl
  | some condition =>
    simp only [declaredType?]
    cases schema.type? condition.value <;> rfl

theorem widenSelection_spread (parent : TypeDefinition) (spread : FragmentSpread) :
    widenSelection schema parent (.spread spread) = .spread spread := by
  rw [widenSelection.eq_def]

theorem enclosed_widenSelection (parent : TypeDefinition) (selection : Selection) :
    (widenSelection schema parent selection).enclosed =
      widenOn schema (declaredType? schema parent selection) selection.enclosed := by
  cases selection with
  | field field =>
    rw [widenSelection_field]
    cases hs : field.selectionSet with
    | none =>
      simp only [Selection.enclosed, FieldSelection.selections, hs, Option.map_none]
      cases declaredType? schema parent (.field field) <;> simp [widenOn, widenSelections]
    | some set =>
      simp only [Selection.enclosed, FieldSelection.selections, hs, Option.map_some]
      exact selections_widenSet _ set
  | inline fragment =>
    rw [widenSelection_inline]
    exact selections_widenSet _ fragment.selectionSet
  | spread spread =>
    rw [widenSelection_spread]
    rfl

theorem getElem?_widenOn (type? : Option TypeDefinition) (selections : List Selection) (i : Nat) :
    (widenOn schema type? selections)[i]? = selections[i]?.map fun selection =>
      type?.elim selection fun type => widenSelection schema type selection := by
  cases type? with
  | none => simp [widenOn]
  | some type => simp [widenOn, widenSelections_eq]

/-- What widening does to the selections at some depth: it widens them on the
type that their definition declares there. -/
theorem listAt?_widenOn (type? : Option TypeDefinition) (selections : List Selection)
    (path : List Nat) :
    Selection.listAt? (widenOn schema type? selections) path =
      (Selection.listAt? selections path).map
        (widenOn schema (declaredAt? schema type? selections path)) := by
  induction path generalizing type? selections with
  | nil => simp [declaredAt?]
  | cons i path ih =>
    rw [Selection.listAt?_cons, Selection.listAt?_cons, getElem?_widenOn, declaredAt?]
    cases selections[i]? with
    | none => rfl
    | some selection =>
      simp only [Option.map_some, Option.bind_some]
      rw [← ih]
      -- what the selection encloses is widened on the type declared below it
      cases type? with
      | none => rfl
      | some type => rw [Option.elim, enclosed_widenSelection]; rfl

/-! ## Arguments -/

/-- The input that a selection made on `parent` declares for an argument. -/
def selectionInput? (parent : TypeDefinition) (selection : Selection) (argument : Argument) :
    Option InputValue :=
  match selection with
  | .field field => (parent.field? field.name.value).bind fun definition =>
      definition.arguments.get? argument.name.value
  | _ => none

/-- An argument widened as an input, or left alone without one. -/
def widenAs (input? : Option InputValue) (argument : Argument) : Argument :=
  { argument with
    value := input?.elim argument.value fun input => widenLiteral input.type argument.value }

theorem argument?_widenSelection (parent : TypeDefinition) (selection : Selection) (i : Nat) :
    (widenSelection schema parent selection).argument? i =
      (selection.argument? i).map fun argument =>
        widenAs (selectionInput? parent selection argument) argument := by
  cases selection with
  | field field =>
    rw [widenSelection_field]
    simp only [Selection.argument?, selectionInput?]
    cases parent.field? field.name.value with
    | none => simp [widenAs]
    | some definition =>
      simp only [Option.elim, Option.bind_some, List.getElem?_map]
      congr 1
      funext argument
      simp only [widenArgument, widenAs]
      cases definition.arguments.get? argument.name.value <;> rfl
  | inline fragment =>
    rw [widenSelection_inline]
    rfl
  | spread spread =>
    rw [widenSelection_spread]
    rfl

/-- The type that a definition is made on. -/
def definitionType? (schema : Schema) : Definition → Option TypeDefinition
  | .operation operation => schema.rootType? operation.kind
  | .fragment fragment => schema.type? fragment.typeCondition.value

theorem selections_widenDefinition (definition : Definition) :
    (widenDefinition schema definition).selections =
      widenOn schema (definitionType? schema definition) definition.selections := by
  cases definition with
  | operation operation => exact selections_widenSet _ operation.selectionSet
  | fragment fragment => exact selections_widenSet _ fragment.selectionSet

/-- The type on which widening takes the selections at some depth of a definition. -/
def declaredParent? (schema : Schema) (document : Document) (d : Nat) (path : List Nat) :
    Option TypeDefinition :=
  document.definitions[d]?.bind fun definition =>
    declaredAt? schema (definitionType? schema definition) definition.selections path

/-- The input as which widening takes the argument at a place. -/
def declaredInput? (schema : Schema) (document : Document) (place : Place) : Option InputValue :=
  (declaredParent? schema document place.definition place.enclosing).bind fun parent =>
    (document.selectionAt? place).bind fun selection =>
      (document.argumentAt? place).bind (selectionInput? parent selection)

theorem selectionAt?_widenDocument (document : Document) (place : Place) :
    (widenDocument schema document).selectionAt? place =
      (document.selectionAt? place).map fun selection =>
        (declaredParent? schema document place.definition place.enclosing).elim selection
          fun parent => widenSelection schema parent selection := by
  simp only [Document.selectionAt?, Document.selectionsAt?, declaredParent?, widenDocument,
    List.getElem?_map]
  cases document.definitions[place.definition]? with
  | none => rfl
  | some definition =>
    simp only [Option.map_some, Option.bind_some]
    rw [selections_widenDefinition, listAt?_widenOn]
    cases Selection.listAt? definition.selections place.enclosing with
    | none => rfl
    | some selections =>
      simp only [Option.map_some, Option.bind_some]
      exact getElem?_widenOn _ selections place.selection

theorem argumentAt?_widenDocument (document : Document) (place : Place) :
    (widenDocument schema document).argumentAt? place =
      (document.argumentAt? place).map (widenAs (declaredInput? schema document place)) := by
  simp only [Document.argumentAt?, declaredInput?, selectionAt?_widenDocument]
  cases document.selectionAt? place with
  | none => rfl
  | some selection =>
    cases declaredParent? schema document place.definition place.enclosing with
    | none => exact Option.map_id'.symm
    | some parent =>
      simp only [Option.map_some, Option.bind_some, Option.elim, argument?_widenSelection]
      cases selection.argument? place.argument <;> rfl

/-! ## Integers -/

/-- The definition-local typing has a float at the place. -/
def FloatDeclared (schema : Schema) (document : Document) (place : Place) : Prop :=
  ∃ argument input leaf, document.argumentAt? place = some argument ∧
    declaredInput? schema document place = some input ∧
    Leaf input.type argument.value place.items "Float" leaf

variable {document : Document} {place : Place} {n : Int64} {p : Position}

/-- **Widening** makes a float of an integer where floats are declared. -/
theorem literalAt?_widenDocument_of_declared (hl : document.literalAt? place = some (.int n p))
    (h : FloatDeclared schema document place) :
    (widenDocument schema document).literalAt? place = some (.float (Float.ofInt n.toInt) p) := by
  obtain ⟨argument, input, leaf, ha, hi, hf⟩ := h
  rw [Document.literalAt?, ha, Option.bind_some, hf.at?] at hl
  cases hl
  rw [Document.literalAt?, argumentAt?_widenDocument, ha, hi]
  exact hf.at?_widenLiteral

/-- Any other integer stays one. -/
theorem literalAt?_widenDocument_of_not_declared
    (hl : document.literalAt? place = some (.int n p)) (h : ¬ FloatDeclared schema document place) :
    (widenDocument schema document).literalAt? place = some (.int n p) := by
  obtain ⟨argument, ha, hl⟩ := Option.bind_eq_some_iff.1 hl
  rw [Document.literalAt?, argumentAt?_widenDocument, ha, Option.map_some, Option.bind_some]
  cases hi : declaredInput? schema document place with
  | none => exact hl
  | some input =>
    exact at?_widenLiteral_of_not_leaf hl fun leaf hf => h ⟨argument, input, leaf, ha, hi, hf⟩

/-! ## Documents -/

/-- An operation with the literals in it widened. -/
def widenOperation (schema : Schema) (operation : Operation) : Operation :=
  { operation with
    selectionSet := widenSet schema (schema.rootType? operation.kind) operation.selectionSet }

/-- A fragment definition with the literals in it widened. -/
def widenFragment (schema : Schema) (fragment : FragmentDefinition) : FragmentDefinition :=
  { fragment with
    selectionSet :=
      widenSet schema (schema.type? fragment.typeCondition.value) fragment.selectionSet }

theorem operations_widenDocument (document : Document) :
    (widenDocument schema document).operations =
      document.operations.map (widenOperation schema) := by
  obtain ⟨definitions⟩ := document
  simp only [Document.operations, widenDocument, List.filterMap_map, List.map_filterMap]
  apply List.filterMap_congr
  intro definition _
  cases definition <;> rfl

theorem fragments_widenDocument (document : Document) :
    (widenDocument schema document).fragments =
      document.fragments.map (widenFragment schema) := by
  obtain ⟨definitions⟩ := document
  simp only [Document.fragments, widenDocument, List.filterMap_map, List.map_filterMap]
  apply List.filterMap_congr
  intro definition _
  cases definition <;> rfl

theorem get?_ofDocument_widenDocument (document : Document) (name : String) :
    (FragmentTable.ofDocument (widenDocument schema document)).get? name =
      ((FragmentTable.ofDocument document).get? name).map (widenFragment schema) := by
  simp only [FragmentTable.ofDocument, FragmentTable.get?, fragments_widenDocument,
    List.find?_map]
  rfl

/-- Widening does not change which operation is chosen. -/
theorem select_widenDocument (document : Document) (name? : Option String) :
    (widenDocument schema document).select name? =
      (document.select name?).map (widenOperation schema) := by
  cases name? with
  | some name =>
    have named : ((fun operation : Operation => operation.isNamed name) ∘ widenOperation schema) =
        fun operation => operation.isNamed name := rfl
    simp only [Document.select, operations_widenDocument, List.find?_map, named]
    cases document.operations.find? fun operation => operation.isNamed name <;> rfl
  | none =>
    simp only [Document.select, operations_widenDocument]
    cases document.operations with
    | nil => rfl
    | cons operation rest => cases rest <;> rfl

end GraphQL.Validation
