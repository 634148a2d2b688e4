import GraphQL.Proofs.Fragment.Spread
import Mathlib.Data.List.Forall2

/-!
# Fragments — expanding spreads

The expansion of a document: in every operation each spread of a defined
fragment is replaced, recursively, by an inline fragment at the spread's
position with the condition and the expanded selections of the fragment's
first definition. Spreads of names that no fragment defines stay. Every
acyclic document has an expansion.
-/

namespace GraphQL

/-- A list of selections and the list with its spreads expanded. -/
inductive Expands (table : FragmentTable) : List Selection → List Selection → Prop
  | nil : Expands table [] []
  | leaf {aliasName : Option Name} {name : Name} {arguments : List Argument} {p : Position}
      {rest rest' : List Selection} (hr : Expands table rest rest') :
      Expands table (.field ⟨aliasName, name, arguments, none, p⟩ :: rest)
        (.field ⟨aliasName, name, arguments, none, p⟩ :: rest')
  | field {aliasName : Option Name} {name : Name} {arguments : List Argument} {p q : Position}
      {selections selections' rest rest' : List Selection}
      (hs : Expands table selections selections') (hr : Expands table rest rest') :
      Expands table (.field ⟨aliasName, name, arguments, some ⟨selections, q⟩, p⟩ :: rest)
        (.field ⟨aliasName, name, arguments, some ⟨selections', q⟩, p⟩ :: rest')
  | inline {condition : Option Name} {p q : Position}
      {selections selections' rest rest' : List Selection}
      (hs : Expands table selections selections') (hr : Expands table rest rest') :
      Expands table (.inline ⟨condition, ⟨selections, q⟩, p⟩ :: rest)
        (.inline ⟨condition, ⟨selections', q⟩, p⟩ :: rest')
  | undefined {spread : FragmentSpread} {rest rest' : List Selection}
      (hf : table.get? spread.name.value = none) (hr : Expands table rest rest') :
      Expands table (.spread spread :: rest) (.spread spread :: rest')
  | spread {spread : FragmentSpread} {fragment : FragmentDefinition}
      {selections' rest rest' : List Selection}
      (hf : table.get? spread.name.value = some fragment)
      (hs : Expands table fragment.selections selections') (hr : Expands table rest rest') :
      Expands table (.spread spread :: rest)
        (.inline ⟨some fragment.typeCondition, ⟨selections', fragment.selectionSet.pos⟩,
          spread.pos⟩ :: rest')

/-- A definition and the definition with its spreads expanded, if it is an operation. -/
inductive DefinitionExpands (table : FragmentTable) : Definition → Definition → Prop
  | operation {kind : OperationKind} {name : Option Name}
      {variableDefinitions : List VariableDefinition} {selections selections' : List Selection}
      {p q : Position} (hs : Expands table selections selections') :
      DefinitionExpands table (.operation ⟨kind, name, variableDefinitions, ⟨selections, q⟩, p⟩)
        (.operation ⟨kind, name, variableDefinitions, ⟨selections', q⟩, p⟩)
  | fragment (fragment : FragmentDefinition) :
      DefinitionExpands table (.fragment fragment) (.fragment fragment)

/-- A document and the document with the spreads in its operations expanded. -/
def Document.Expands (document expanded : Document) : Prop :=
  List.Forall₂ (DefinitionExpands (.ofDocument document)) document.definitions
    expanded.definitions

/-! ## Acyclic documents have expansions -/

variable {table : FragmentTable}

/-- By the recursion of every walk that expands fragments: inside a fragment
fewer names are left, elsewhere the selections get smaller. -/
theorem exists_expands (hacyclic : table.Acyclic) (path : List String)
    (selections : List Selection) (ha : table.Ahead path selections) :
    ∃ expanded, Expands table selections expanded := by
  match selections with
  | [] => exact ⟨[], .nil⟩
  | .field ⟨aliasName, name, arguments, none, p⟩ :: rest =>
    obtain ⟨rest', hr⟩ := exists_expands hacyclic path rest ha.tail
    exact ⟨_, .leaf hr⟩
  | .field ⟨aliasName, name, arguments, some ⟨inner, q⟩, p⟩ :: rest =>
    obtain ⟨rest', hr⟩ := exists_expands hacyclic path rest ha.tail
    obtain ⟨inner', hs⟩ := exists_expands hacyclic path inner ha.field
    exact ⟨_, .field hs hr⟩
  | .inline ⟨condition, ⟨inner, q⟩, p⟩ :: rest =>
    obtain ⟨rest', hr⟩ := exists_expands hacyclic path rest ha.tail
    obtain ⟨inner', hs⟩ := exists_expands hacyclic path inner ha.inline
    exact ⟨_, .inline hs hr⟩
  | .spread spread :: rest =>
    obtain ⟨rest', hr⟩ := exists_expands hacyclic path rest ha.tail
    cases hf : table.get? spread.name.value with
    | none => exact ⟨_, .undefined hf hr⟩
    | some fragment =>
      have hlt := FragmentTable.unvisited_cons_lt hf (ha.not_mem hacyclic)
      obtain ⟨inner', hs⟩ :=
        exists_expands hacyclic (spread.name.value :: path) fragment.selections (ha.spread hf)
      exact ⟨_, .spread hf hs hr⟩
termination_by (table.unvisited path, sizeOf selections)

theorem exists_definitionExpands (hacyclic : table.Acyclic) (definition : Definition) :
    ∃ expanded, DefinitionExpands table definition expanded := by
  cases definition with
  | fragment fragment => exact ⟨_, .fragment fragment⟩
  | operation operation =>
    obtain ⟨kind, name, variableDefinitions, ⟨selections, q⟩, p⟩ := operation
    obtain ⟨expanded, hs⟩ := exists_expands hacyclic [] selections (FragmentTable.ahead_nil _)
    exact ⟨_, .operation hs⟩

theorem exists_documentExpands {document : Document} (hacyclic : document.Acyclic) :
    ∃ expanded, document.Expands expanded := by
  have all : ∀ definitions : List Definition, ∃ expanded,
      List.Forall₂ (DefinitionExpands (.ofDocument document)) definitions expanded := by
    intro definitions
    induction definitions with
    | nil => exact ⟨[], .nil⟩
    | cons definition definitions ih =>
      obtain ⟨first, hf⟩ := exists_definitionExpands hacyclic definition
      obtain ⟨rest, hr⟩ := ih
      exact ⟨first :: rest, .cons hf hr⟩
  obtain ⟨definitions, h⟩ := all document.definitions
  exact ⟨⟨definitions⟩, h⟩

/-! ## What an expansion keeps -/

theorem Expands.isEmpty_eq {selections expanded : List Selection}
    (h : Expands table selections expanded) : expanded.isEmpty = selections.isEmpty := by
  cases h <;> rfl

/-- The fragments stay, so the expanded document resolves names as before. -/
theorem Document.Expands.ofDocument_eq {document expanded : Document}
    (h : document.Expands expanded) :
    FragmentTable.ofDocument expanded = FragmentTable.ofDocument document := by
  have all : ∀ {table} {definitions expanded : List Definition},
      List.Forall₂ (DefinitionExpands table) definitions expanded →
      expanded.filterMap Definition.fragment? = definitions.filterMap Definition.fragment? := by
    intro table definitions expanded h
    induction h with
    | nil => rfl
    | cons hd _ ih =>
      rw [List.filterMap_cons, List.filterMap_cons, ih]
      cases hd <;> rfl
  exact congrArg FragmentTable.mk (all h)

end GraphQL
