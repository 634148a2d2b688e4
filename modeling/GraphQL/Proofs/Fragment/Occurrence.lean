import GraphQL.Proofs.Document.Place
import GraphQL.Proofs.Fragment.Spread
import GraphQL.Proofs.Listed

/-!
# Fragments — where spreads stand

A spread stands in a list of selections at a path of indices, which leads
through the fields and inline fragments that enclose it (`SpreadAt`). The
spreads that a report looks at are those of all paths, in the order of the
paths; and the spreads reached by following spreads to the first definition
of their name (`Reaches`) are those of the spread graph.
-/

namespace GraphQL

open Relation

/-- A spread stands in selections at a path of indices. -/
inductive SpreadAt : List Selection → List Nat → FragmentSpread → Prop
  | here {selections : List Selection} {i : Nat} {spread : FragmentSpread}
      (hi : selections[i]? = some (.spread spread)) : SpreadAt selections [i] spread
  | enclosed {selections : List Selection} {i : Nat} {selection : Selection} {path : List Nat}
      {spread : FragmentSpread} (hi : selections[i]? = some selection)
      (h : SpreadAt selection.enclosed path spread) : SpreadAt selections (i :: path) spread

/-- The spreads reached from selections: those that stand in them, and those in
the first definition of a name that is spread. -/
inductive Reaches (table : FragmentTable) (selections : List Selection) : FragmentSpread → Prop
  | written {path : List Nat} {spread : FragmentSpread} (h : SpreadAt selections path spread) :
      Reaches table selections spread
  | followed {spread inner : FragmentSpread} {fragment : FragmentDefinition} {path : List Nat}
      (h : Reaches table selections spread) (hf : table.get? spread.name.value = some fragment)
      (hs : SpreadAt fragment.selections path inner) : Reaches table selections inner

/-! ## The spreads of a list of selections -/

/-- What stands in one selection: the selection itself, or what it encloses. -/
def SpreadIn (selection : Selection) (path : List Nat) (spread : FragmentSpread) : Prop :=
  (path = [] ∧ selection = .spread spread) ∨ SpreadAt selection.enclosed path spread

theorem spreadAt_iff {selections : List Selection} {place : List Nat} {spread : FragmentSpread} :
    SpreadAt selections place spread ↔ ∃ i path selection, place = i :: path ∧
      selections[i]? = some selection ∧ SpreadIn selection path spread := by
  constructor
  · intro h
    cases h with
    | here hi => exact ⟨_, [], _, rfl, hi, .inl ⟨rfl, rfl⟩⟩
    | enclosed hi h => exact ⟨_, _, _, rfl, hi, .inr h⟩
  · rintro ⟨i, path, selection, rfl, hi, ⟨rfl, rfl⟩ | h⟩
    · exact .here hi
    · exact .enclosed hi h

theorem not_spreadAt_nil {place : List Nat} {spread : FragmentSpread} :
    ¬ SpreadAt [] place spread := by
  intro h
  cases h with
  | here hi => cases hi
  | enclosed hi => cases hi

/-- At a path stands one spread at most. -/
theorem SpreadAt.unique {selections : List Selection} {place : List Nat}
    {spread other : FragmentSpread} (h : SpreadAt selections place spread)
    (h' : SpreadAt selections place other) : spread = other := by
  induction h generalizing other with
  | here hi =>
    cases h' with
    | here hi' =>
      cases hi.symm.trans hi'
      rfl
    | enclosed hi' h' =>
      cases hi.symm.trans hi'
      exact absurd h' not_spreadAt_nil
  | enclosed hi h ih =>
    cases h' with
    | here hi' =>
      cases hi.symm.trans hi'
      exact absurd h not_spreadAt_nil
    | enclosed hi' h' =>
      cases hi.symm.trans hi'
      exact ih h'

namespace Selection

theorem spreadsOfList_eq (selections : List Selection) :
    spreadsOfList selections = selections.flatMap spreads := by
  induction selections with
  | nil => rfl
  | cons selection selections ih => simp [spreadsOfList, ih]

/-- **The spreads of a list of selections** are those at all paths, in their order. -/
theorem listed_spreadsOfList (selections : List Selection) :
    Listed (SpreadAt selections) (spreadsOfList selections) := by
  have each : ∀ selection ∈ selections, Listed (SpreadIn selection) selection.spreads := by
    intro selection hm
    have := List.sizeOf_lt_of_mem hm
    have := selection.sizeOf_enclosed_lt
    have inner := listed_spreadsOfList selection.enclosed
    cases selection with
    | spread spread =>
      rw [spreads_spread]
      refine .single (.inl ⟨rfl, rfl⟩) ?_
      rintro place _ (⟨rfl, -⟩ | h)
      · rfl
      · exact absurd h not_spreadAt_nil
    | field field =>
      rw [spreads_field]
      exact inner.congr fun place value => by simp [SpreadIn]
    | inline fragment =>
      rw [spreads_inline]
      exact inner.congr fun place value => by simp [SpreadIn]
  rw [spreadsOfList_eq]
  exact (Listed.flatMap each).congr fun place value => spreadAt_iff.symm
termination_by sizeOf selections

end Selection

theorem mem_spreadsOfList_iff_spreadAt {selections : List Selection} {spread : FragmentSpread} :
    spread ∈ Selection.spreadsOfList selections ↔ ∃ path, SpreadAt selections path spread :=
  (Selection.listed_spreadsOfList selections).mem_iff fun _ _ _ h h' => h.unique h'

/-! ## The spreads reached -/

variable {table : FragmentTable} {selections : List Selection}

theorem Reaches.exists_leads {spread : FragmentSpread} (h : Reaches table selections spread) :
    ∃ first ∈ Selection.spreadsOfList selections,
      ReflTransGen table.Spreads first.name.value spread.name.value := by
  induction h with
  | written h => exact ⟨_, mem_spreadsOfList_iff_spreadAt.2 ⟨_, h⟩, .refl⟩
  | followed _ hf hs ih =>
    obtain ⟨first, hm, hr⟩ := ih
    exact ⟨first, hm, hr.tail ⟨_, hf, _, mem_spreadsOfList_iff_spreadAt.2 ⟨_, hs⟩, rfl⟩⟩

end GraphQL
