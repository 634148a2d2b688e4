import GraphQL.Proofs.Document.Place
import GraphQL.Proofs.Fragment.Cycle
import GraphQL.Proofs.Fragment.PathWalk

/-!
# Fragments — the search for ways back as a walk

The report on a document's fragments searches the body of each for a way back to it.
Said as a walk with one path, the search goes on behind the first way back that it
finds, and through fragments that were reported before; it then notes nothing more.
Main statements: the walk is guarded, and what it notes is what the search finds.
-/

namespace GraphQL

/-- What is noted of ways back: the names that were reported, and the diagnostics. -/
structure CycleReport where
  reported : List String
  diagnostics : List Diagnostic

namespace CycleReport

/-- Notes a way back to a name, once for each name. -/
def note (report : CycleReport) (name : String) (p : Position) : CycleReport :=
  if name ∈ report.reported then report
  else ⟨name :: report.reported, report.diagnostics ++ [FragmentTable.cycle name p]⟩

/-- Notes a way back to a name, if one was found. -/
def noteFound (report : CycleReport) (name : String) : Option Position → CycleReport
  | some p => report.note name p
  | none => report

/-- Notes what the search for a way back to a fragment finds. -/
def afterSearch (table : FragmentTable) (report : CycleReport) (fragment : FragmentDefinition) :
    CycleReport :=
  report.noteFound fragment.name.value (table.findReturn fragment.name.value
    [fragment.name.value] (Selection.spreadsOfList fragment.selections))

/-- Of two ways back the first is noted. -/
theorem noteFound_noteFound (report : CycleReport) (name : String)
    (first second : Option Position) :
    (report.noteFound name first).noteFound name second =
      report.noteFound name (first.or second) := by
  cases first with
  | none => rfl
  | some p =>
    cases second with
    | none => rfl
    | some q =>
      by_cases hn : name ∈ report.reported
      · simp [noteFound, note, hn]
      · simp [noteFound, note, hn]

/-- The searches for ways back to some fragments, one after the other, note what is reported of
them. -/
theorem diagnostics_foldl_afterSearch (table : FragmentTable) (report : CycleReport)
    (fragments : List FragmentDefinition) :
    (fragments.foldl (afterSearch table) report).diagnostics =
      report.diagnostics ++ table.cycles report.reported fragments := by
  induction fragments generalizing report with
  | nil => exact (List.append_nil _).symm
  | cons fragment fragments ih =>
    rw [List.foldl_cons, ih, FragmentTable.cycles, afterSearch]
    cases table.findReturn fragment.name.value [fragment.name.value]
        (Selection.spreadsOfList fragment.selections) with
    | none => simp [noteFound]
    | some p =>
      by_cases hn : fragment.name.value ∈ report.reported
      · simp [noteFound, note, hn]
      · simp [noteFound, note, hn]

end CycleReport

namespace FragmentTable

open PathWalk

/-- The search at a selection. A spread of the first name on the path is a way back; any
other spread is followed unless its name is on the path. -/
def searchCall (table : FragmentTable) : Handler Selection CycleReport :=
  fun path report selection =>
    match selection with
    | .field field => ⟨report, none, field.selections⟩
    | .inline fragment => ⟨report, none, fragment.selections⟩
    | .spread spread =>
      if path.getLast? = some spread.name.value then
        ⟨report.note spread.name.value spread.pos, none, []⟩
      else if spread.name.value ∈ path then ⟨report, none, []⟩
      else match table.get? spread.name.value with
        | none => ⟨report, none, []⟩
        | some fragment => ⟨report, some spread.name.value, fragment.selections⟩

variable {table : FragmentTable} {root : String} {path : List String} {report last : CycleReport}
  {selections : List Selection}

theorem searchCall_spread (path : List String) (report : CycleReport) (spread : FragmentSpread) :
    (path.getLast? = some spread.name.value ∧
      table.searchCall path report (.spread spread) =
        ⟨report.note spread.name.value spread.pos, none, []⟩) ∨
    (path.getLast? ≠ some spread.name.value ∧
      (spread.name.value ∈ path ∨ table.get? spread.name.value = none) ∧
      table.searchCall path report (.spread spread) = ⟨report, none, []⟩) ∨
    ∃ fragment, path.getLast? ≠ some spread.name.value ∧ spread.name.value ∉ path ∧
      table.get? spread.name.value = some fragment ∧
      table.searchCall path report (.spread spread) =
        ⟨report, some spread.name.value, fragment.selections⟩ := by
  by_cases hr : path.getLast? = some spread.name.value
  · exact .inl ⟨hr, by simp [searchCall, hr]⟩
  · by_cases hp : spread.name.value ∈ path
    · exact .inr (.inl ⟨hr, .inl hp, by simp [searchCall, hr, hp]⟩)
    · cases hf : table.get? spread.name.value with
      | none => exact .inr (.inl ⟨hr, .inr rfl, by simp [searchCall, hr, hp, hf]⟩)
      | some fragment => exact .inr (.inr ⟨fragment, hr, hp, rfl, by simp [searchCall, hr, hp, hf]⟩)

/-- **The search is guarded.** -/
theorem guarded_searchCall (table : FragmentTable) : Guarded table sizeOf table.searchCall where
  enters {path report selection name} he := by
    cases selection with
    | field field => cases he
    | inline fragment => cases he
    | spread spread =>
      rcases table.searchCall_spread path report spread with
        ⟨-, hs⟩ | ⟨-, -, hs⟩ | ⟨fragment, -, hp, hf, hs⟩
      · rw [hs] at he
        cases he
      · rw [hs] at he
        cases he
      · rw [hs] at he
        cases he
        exact ⟨hp, fragment, hf⟩
  smaller {path report selection} he inner hm := by
    cases selection with
    | field field => exact Selection.sizeOf_lt_of_mem_enclosed hm
    | inline fragment => exact Selection.sizeOf_lt_of_mem_enclosed hm
    | spread spread =>
      rcases table.searchCall_spread path report spread with
        ⟨-, hs⟩ | ⟨-, -, hs⟩ | ⟨fragment, -, -, -, hs⟩
      · rw [hs] at hm
        cases hm
      · rw [hs] at hm
        cases hm
      · rw [hs] at he
        cases he

theorem findReturn_append (first second : List FragmentSpread) :
    table.findReturn root path (first ++ second) =
      (table.findReturn root path first).or (table.findReturn root path second) := by
  induction first with
  | nil => simp [findReturn]
  | cons spread first ih =>
    rw [List.cons_append, findReturn_cons, findReturn_cons, ih]
    split
    · rfl
    · rw [Option.or_assoc]

/-- **What the walk notes is what the search finds.** -/
theorem evaluates_searchCall (h : Evaluates table.searchCall path report selections last)
    (hr : path.getLast? = some root) : last = report.noteFound root
      (table.findReturn root path (Selection.spreadsOfList selections)) := by
  induction h with
  | nil => simp [Selection.spreadsOfList, findReturn, CycleReport.noteFound]
  | @cons path report inner last selection selections hc _ ihc ihr =>
    have call : inner = report.noteFound root (table.findReturn root path selection.spreads) := by
      cases selection with
      | field field =>
        rw [Selection.spreads_field]
        exact ihc hr
      | inline fragment =>
        rw [Selection.spreads_inline]
        exact ihc hr
      | spread spread =>
        rw [Selection.spreads_spread, findReturn_cons, findReturn, Option.or_none]
        rcases table.searchCall_spread path report spread with
          ⟨hn, hs⟩ | ⟨hn, hcut, hs⟩ | ⟨fragment, hn, hp, hf, hs⟩
        · rw [hs] at hc
          cases hc
          obtain rfl : spread.name.value = root := Option.some.inj (hn.symm.trans hr)
          rw [if_pos rfl]
          rfl
        · rw [hs] at hc
          cases hc
          have other : spread.name.value ≠ root := fun he => hn (he ▸ hr)
          rw [if_neg other]
          rcases hcut with hp | hf
          · rw [if_pos hp]
            rfl
          · rw [hf, Option.bind_none, ite_self]
            rfl
        · rw [hs] at ihc
          have other : spread.name.value ≠ root := fun he => hn (he ▸ hr)
          rw [if_neg other, if_neg hp, hf, Option.bind_some]
          exact ihc (by rw [Option.toList_some, List.cons_append, List.nil_append,
            List.getLast?_cons, hr, Option.getD_some])
    rw [Selection.spreadsOfList, findReturn_append, ← CycleReport.noteFound_noteFound, ← call]
    exact ihr hr

/-- **The search for a way back to a fragment keeps its path**, which begins with the
fragment's own name, and notes what `findReturn` finds. -/
theorem keepsPath_searchCall {document : Document} {fragment : FragmentDefinition}
    (hm : fragment ∈ document.fragments) (report : CycleReport) :
    KeepsPath (.ofDocument document) 1 (searchCall (.ofDocument document))
      (.start [fragment.name.value] fragment.selections report)
      (report.afterSearch (.ofDocument document) fragment) := by
  have hg := guarded_searchCall (.ofDocument document)
  have defined : ∃ first, (ofDocument document).get? fragment.name.value = some first := by
    rw [← Option.ne_none_iff_exists', get?, Ne, List.find?_eq_none]
    intro none
    exact none fragment hm (beq_self_eq_true _)
  obtain ⟨last, he⟩ := hg.exists_evaluates [fragment.name.value] fragment.selections report
  obtain rfl := evaluates_searchCall he rfl
  refine hg.keepsPath (.start (List.pairwise_singleton _ _) ?_) he
  intro name hn
  cases List.mem_singleton.1 hn
  exact defined

end FragmentTable

end GraphQL
