import GraphQL.Fragment.Report
import Mathlib.Logic.Relation

/-!
# Fragments — which fragment spreads which

The spread graph of a document: a name leads to the names that its first
definition spreads, at any depth of fields and inline fragments. A document
is acyclic if no name leads back to itself.

A walk that expands fragments keeps the names being expanded on a path, and
every name on the path leads to everything that is still to be expanded
(`Ahead`). On an acyclic document it therefore never meets a name on its
path.
-/

namespace GraphQL

open Relation

namespace Selection

@[simp] theorem spreads_field (field : FieldSelection) :
    (Selection.field field).spreads = spreadsOfList field.selections := by
  obtain ⟨aliasName, name, arguments, set, p⟩ := field
  cases set with
  | none => rfl
  | some set =>
    obtain ⟨selections, q⟩ := set
    rfl

@[simp] theorem spreads_inline (fragment : InlineFragment) :
    (Selection.inline fragment).spreads = spreadsOfList fragment.selections := by
  obtain ⟨condition, ⟨selections, q⟩, p⟩ := fragment
  rfl

@[simp] theorem spreads_spread (spread : FragmentSpread) :
    (Selection.spread spread).spreads = [spread] :=
  rfl

theorem mem_spreadsOfList_iff {spread : FragmentSpread} {selections : List Selection} :
    spread ∈ spreadsOfList selections ↔ ∃ selection ∈ selections, spread ∈ selection.spreads := by
  induction selections with
  | nil => simp [spreadsOfList]
  | cons selection selections ih => simp [spreadsOfList, ih]

end Selection

namespace FragmentTable

/-- The first definition of a name spreads another name, at some depth. -/
def Spreads (table : FragmentTable) (name other : String) : Prop :=
  ∃ fragment, table.get? name = some fragment ∧
    ∃ spread ∈ Selection.spreadsOfList fragment.selections, spread.name.value = other

/-- No name leads back to itself. -/
def Acyclic (table : FragmentTable) : Prop := ∀ name, ¬ TransGen table.Spreads name name

/-- Names that can be ranked so that spreads go down form no cycle. -/
theorem acyclic_of_rank {table : FragmentTable} (rank : String → Nat)
    (h : ∀ name other, table.Spreads name other → rank other < rank name) : table.Acyclic := by
  have lower : ∀ name other, TransGen table.Spreads name other → rank other < rank name := by
    intro name other ht
    induction ht with
    | single hs => exact h _ _ hs
    | tail _ hs ih => exact Nat.lt_trans (h _ _ hs) ih
  intro name ht
  exact Nat.lt_irrefl _ (lower name name ht)

/-- Every name on the path leads to every spread in the selections. -/
def Ahead (table : FragmentTable) (path : List String) (selections : List Selection) : Prop :=
  ∀ name ∈ path, ∀ spread ∈ Selection.spreadsOfList selections,
    TransGen table.Spreads name spread.name.value

variable {table : FragmentTable} {path : List String} {selection : Selection}
  {selections : List Selection}

theorem ahead_nil (selections : List Selection) : table.Ahead [] selections := by
  intro name hn
  cases hn

theorem Ahead.mono {inner : List Selection} (h : table.Ahead path selections)
    (hs : ∀ spread ∈ Selection.spreadsOfList inner, spread ∈ Selection.spreadsOfList selections) :
    table.Ahead path inner :=
  fun name hn spread hm => h name hn spread (hs spread hm)

theorem Ahead.tail (h : table.Ahead path (selection :: selections)) :
    table.Ahead path selections :=
  h.mono fun spread hm => by simp [Selection.spreadsOfList, hm]

theorem Ahead.field {field : FieldSelection} (h : table.Ahead path (.field field :: selections)) :
    table.Ahead path field.selections :=
  h.mono fun spread hm => by simp [Selection.spreadsOfList, hm]

theorem Ahead.inline {fragment : InlineFragment}
    (h : table.Ahead path (.inline fragment :: selections)) :
    table.Ahead path fragment.selections :=
  h.mono fun spread hm => by simp [Selection.spreadsOfList, hm]

theorem Ahead.leads {spread : FragmentSpread} {name : String}
    (h : table.Ahead path (.spread spread :: selections)) (hn : name ∈ path) :
    TransGen table.Spreads name spread.name.value :=
  h name hn spread (by simp [Selection.spreadsOfList])

/-- Expanding a spread puts its name on the path, and the invariant holds of
the body: the name leads there in one spread, the others through it. -/
theorem Ahead.spread {spread : FragmentSpread} {fragment : FragmentDefinition}
    (h : table.Ahead path (.spread spread :: selections))
    (hf : table.get? spread.name.value = some fragment) :
    table.Ahead (spread.name.value :: path) fragment.selections := by
  intro name hn inner hm
  have hstep : table.Spreads spread.name.value inner.name.value := ⟨fragment, hf, inner, hm, rfl⟩
  rcases List.mem_cons.1 hn with rfl | hn
  · exact .single hstep
  · exact (h.leads hn).tail hstep

/-- On an acyclic table no walk meets a name on its path. -/
theorem Ahead.not_mem (hacyclic : table.Acyclic) {spread : FragmentSpread}
    (h : table.Ahead path (.spread spread :: selections)) : spread.name.value ∉ path :=
  fun hn => hacyclic _ (h.leads hn)

end FragmentTable

/-- The fragments of a document do not spread each other in a cycle. -/
def Document.Acyclic (document : Document) : Prop := (FragmentTable.ofDocument document).Acyclic

end GraphQL
