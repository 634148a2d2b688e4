import GraphQL.Fragment.Report
import GraphQL.Proofs.Document.Relabelling
import GraphQL.Proofs.Fragment.Cycle

/-!
# Fragments — other positions

The problems of a document's fragments are found by the names in it, and a
position only says where to report one. So the relabelled document has the same
problems at the relabelled positions.
-/

namespace GraphQL

variable (f : Position → Position)

namespace Selection

mutual

theorem spreads_relabel (selection : Selection) :
    (selection.relabel f).spreads = selection.spreads.map (FragmentSpread.relabel f) := by
  cases selection with
  | field field =>
    have := field.sizeOf_selections_lt
    simpa using spreadsOfList_relabel field.selections
  | spread named => simp
  | inline fragment =>
    have := fragment.sizeOf_selections_lt
    simpa using spreadsOfList_relabel fragment.selections
termination_by sizeOf selection

theorem spreadsOfList_relabel (selections : List Selection) :
    spreadsOfList (selections.map (relabel f)) =
      (spreadsOfList selections).map (FragmentSpread.relabel f) := by
  cases selections with
  | nil => rfl
  | cons selection selections =>
    rw [List.map_cons, spreadsOfList, spreadsOfList, List.map_append, spreads_relabel selection,
      spreadsOfList_relabel selections]
termination_by sizeOf selections

end

end Selection

namespace FragmentTable

theorem duplicates_relabel (seen : List String) (fragments : List FragmentDefinition) :
    duplicates seen (fragments.map (FragmentDefinition.relabel f)) =
      (duplicates seen fragments).map (Diagnostic.relabel f) := by
  induction fragments generalizing seen with
  | nil => rfl
  | cons fragment fragments ih =>
    rw [List.map_cons, duplicates, duplicates, List.map_append, fragment.name_relabel f, ih]
    by_cases h : seen.contains fragment.name.value = true
    · rw [if_pos h, if_pos h]
      rfl
    · rw [if_neg h, if_neg h]
      rfl

theorem unknownSpreads_relabel (table : FragmentTable) (selections : List Selection) :
    (table.relabel f).unknownSpreads (selections.map (Selection.relabel f)) =
      (table.unknownSpreads selections).map (Diagnostic.relabel f) := by
  have same : ∀ spread : FragmentSpread,
      ((table.relabel f).get? (spread.relabel f).name.value).isNone =
        (table.get? spread.name.value).isNone := by
    intro spread
    simp [FragmentSpread.relabel]
  rw [unknownSpreads, unknownSpreads, Selection.spreadsOfList_relabel, List.filter_map,
    List.map_map, List.map_map]
  simp only [Function.comp_def, same]
  rfl

/-- The search follows names, so it ends at the spread that it ended at. -/
theorem findReturn_relabel (table : FragmentTable) (root : String) (path : List String)
    (spreads : List FragmentSpread) :
    (table.relabel f).findReturn root path (spreads.map (FragmentSpread.relabel f)) =
      (table.findReturn root path spreads).map f := by
  induction path, spreads using findReturn.induct table root with
  | case1 path => simp [findReturn]
  | case2 path spread spreads name hn =>
    rw [List.map_cons, findReturn_cons, findReturn_cons, spread.name_relabel f, if_pos hn, if_pos hn]
    rfl
  | case3 path spread spreads name hn hp ih =>
    rw [List.map_cons, findReturn_cons, findReturn_cons, spread.name_relabel f, if_neg hn,
      if_neg hn, if_pos hp, if_pos hp, ih]
    rfl
  | case4 path spread spreads name hn hp hf ih =>
    rw [List.map_cons, findReturn_cons, findReturn_cons, spread.name_relabel f, if_neg hn,
      if_neg hn, if_neg hp, if_neg hp, get?_relabel, hf, ih]
    rfl
  | case5 path spread spreads name hn hp fragment hf _ ihf ih =>
    -- first the search in the fragment (`ihf`), then the one behind the spread (`ih`)
    rw [List.map_cons, findReturn_cons, findReturn_cons, spread.name_relabel f, if_neg hn,
      if_neg hn, if_neg hp, if_neg hp, get?_relabel, hf, ih, Option.map_some, Option.bind_some,
      Option.bind_some, FragmentDefinition.selections_relabel, Selection.spreadsOfList_relabel,
      ihf, Option.map_or]

theorem cycles_relabel (table : FragmentTable) (reported : List String)
    (fragments : List FragmentDefinition) :
    (table.relabel f).cycles reported (fragments.map (FragmentDefinition.relabel f)) =
      (table.cycles reported fragments).map (Diagnostic.relabel f) := by
  induction fragments generalizing reported with
  | nil => rfl
  | cons fragment fragments ih =>
    rw [List.map_cons, cycles, cycles, fragment.name_relabel f]
    by_cases h : reported.contains fragment.name.value = true
    · rw [if_pos h, if_pos h, ih]
    rw [if_neg h, if_neg h, FragmentDefinition.selections_relabel,
      Selection.spreadsOfList_relabel, findReturn_relabel]
    cases table.findReturn fragment.name.value [fragment.name.value]
        (Selection.spreadsOfList fragment.selections) with
    | none => exact ih reported
    | some p => exact congrArg _ (ih _)

end FragmentTable

/-- The fragments of the relabelled document have the same problems, relabelled. -/
theorem Document.fragmentProblems_relabel (document : Document) :
    (document.relabel f).fragmentProblems =
      document.fragmentProblems.map (Diagnostic.relabel f) := by
  simp only [fragmentProblems, operations_relabel, fragments_relabel,
    FragmentTable.ofDocument_relabel, FragmentTable.duplicates_relabel,
    FragmentTable.cycles_relabel, List.flatMap_map, List.map_append, List.map_flatMap,
    Operation.selections_relabel, FragmentDefinition.selections_relabel,
    FragmentTable.unknownSpreads_relabel]

end GraphQL
