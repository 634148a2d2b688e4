import GraphQL.Proofs.Fragment.CycleWalk
import GraphQL.Proofs.Validation.Skipped
import Mathlib.Data.List.Iterate

/-!
# Validation — the walk and its path

The walk over a document as a walk with one path: it is called for every operation in
turn, and for every selection on its type. Main statement: this walk and the search for
ways back keep their paths, whatever the document, and end with what the report says
and the findings.
-/

namespace GraphQL.Validation

open PathWalk

/-- What the walk is called for. -/
inductive Call where
  | onOperation (operation : Operation)
  | onSelection (parent : TypeDefinition) (selection : Selection)

namespace Call

/-- The size of the syntax that is still below a call. -/
noncomputable def size : Call → Nat
  | .onOperation operation => sizeOf operation.selections
  | .onSelection _ selection => sizeOf selection

/-- The walk at a call. It enters the fragment of a spread unless its name is on the path. -/
def handle (schema : Schema) (table : FragmentTable) : Handler Call (List Finding) :=
  fun path found call =>
    match call with
    | .onOperation operation =>
      match schema.rootType? operation.kind with
      | none => ⟨found ++ [.problem (.missingRoot operation.kind) operation.pos], none, []⟩
      | some root => ⟨found, none, operation.selections.map (.onSelection root)⟩
    | .onSelection parent selection =>
      let step := selectionStep schema table parent selection
      match step.type?, selection with
      | none, _ => ⟨found ++ step.findings, none, []⟩
      | some type, .spread spread =>
        if spread.name.value ∈ path then
          ⟨found ++ step.findings ++ [.repeatedSpread spread], none, []⟩
        else
          ⟨found ++ step.findings, some spread.name.value,
            (bodyOf table (.spread spread)).map (.onSelection type)⟩
      | some type, selection =>
        ⟨found ++ step.findings, none, (bodyOf table selection).map (.onSelection type)⟩

/-- What is found at a call along a path. In a document operations are walked along the
empty one, as `operationFindings` does. -/
def findings (schema : Schema) (table : FragmentTable) (path : List String) : Call → List Finding
  | .onOperation operation =>
    match schema.rootType? operation.kind with
    | none => [.problem (.missingRoot operation.kind) operation.pos]
    | some root => selectionsFindings schema table path root operation.selections
  | .onSelection parent selection => selectionFindings schema table path parent selection

variable {schema : Schema} {table : FragmentTable} {path : List String} {found : List Finding}

/-- The walk at a selection, as a case distinction: nothing is below it, or it is a spread
that is cut or whose fragment is entered, or what is below it is walked on the same path. -/
theorem handle_cases (schema : Schema) (table : FragmentTable) (path : List String)
    (found : List Finding) (parent : TypeDefinition) (selection : Selection) :
    ((selectionStep schema table parent selection).type? = none ∧
      handle schema table path found (.onSelection parent selection) =
        ⟨found ++ (selectionStep schema table parent selection).findings, none, []⟩) ∨
    ∃ type, (selectionStep schema table parent selection).type? = some type ∧
      ((∃ spread, selection = .spread spread ∧ spread.name.value ∈ path ∧
          handle schema table path found (.onSelection parent selection) =
            ⟨found ++ (selectionStep schema table parent selection).findings ++
              [.repeatedSpread spread], none, []⟩) ∨
        (∃ spread, selection = .spread spread ∧ spread.name.value ∉ path ∧
          handle schema table path found (.onSelection parent selection) =
            ⟨found ++ (selectionStep schema table parent selection).findings,
              some spread.name.value, (bodyOf table selection).map (.onSelection type)⟩) ∨
        (spreadName? selection = none ∧
          handle schema table path found (.onSelection parent selection) =
            ⟨found ++ (selectionStep schema table parent selection).findings, none,
              (bodyOf table selection).map (.onSelection type)⟩)) := by
  cases ht : (selectionStep schema table parent selection).type? with
  | none => exact .inl ⟨rfl, by simp [handle, ht]⟩
  | some type =>
    refine .inr ⟨type, rfl, ?_⟩
    cases selection with
    | field field => exact .inr (.inr ⟨rfl, by simp [handle, ht]⟩)
    | inline fragment => exact .inr (.inr ⟨rfl, by simp [handle, ht]⟩)
    | spread spread =>
      by_cases hp : spread.name.value ∈ path
      · exact .inl ⟨spread, rfl, hp, by simp [handle, ht, hp]⟩
      · exact .inr (.inl ⟨spread, rfl, hp, by simp [handle, ht, hp]⟩)

/-- A spread is looked into only if it has a fragment. -/
theorem exists_fragment_of_type? {parent type : TypeDefinition} {spread : FragmentSpread}
    (ht : (selectionStep schema table parent (.spread spread)).type? = some type) :
    ∃ fragment, table.get? spread.name.value = some fragment := by
  rw [← Option.ne_none_iff_exists']
  intro hf
  simp [selectionStep, hf] at ht

/-- What is below a selection other than a spread is smaller. -/
theorem sizeOf_lt_of_mem_bodyOf {selection inner : Selection} (hs : spreadName? selection = none)
    (hm : inner ∈ bodyOf table selection) : sizeOf inner < sizeOf selection := by
  cases selection with
  | spread spread => cases hs
  | _ => exact Selection.sizeOf_lt_of_mem_enclosed hm

/-- **The walk is guarded.** -/
theorem guarded_handle (schema : Schema) (table : FragmentTable) :
    Guarded table size (handle schema table) where
  enters {path found call name} he := by
    cases call with
    | onOperation operation =>
      rw [handle] at he
      split at he <;> cases he
    | onSelection parent selection =>
      rcases handle_cases schema table path found parent selection with
        ⟨-, hs⟩ | ⟨type, ht, ⟨_, -, -, hs⟩ | ⟨spread, rfl, hp, hs⟩ | ⟨-, hs⟩⟩
      · rw [hs] at he
        cases he
      · rw [hs] at he
        cases he
      · rw [hs] at he
        cases he
        exact ⟨hp, exists_fragment_of_type? ht⟩
      · rw [hs] at he
        cases he
  smaller {path found call} he inner hm := by
    cases call with
    | onOperation operation =>
      rw [handle] at hm
      split at hm
      · cases hm
      · obtain ⟨selection, hs, rfl⟩ := List.mem_map.1 hm
        exact List.sizeOf_lt_of_mem hs
    | onSelection parent selection =>
      rcases handle_cases schema table path found parent selection with
        ⟨-, hs⟩ | ⟨type, -, ⟨_, -, -, hs⟩ | ⟨_, -, -, hs⟩ | ⟨hn, hs⟩⟩
      · rw [hs] at hm
        cases hm
      · rw [hs] at hm
        cases hm
      · rw [hs] at he
        cases he
      · rw [hs] at hm
        obtain ⟨below, hb, rfl⟩ := List.mem_map.1 hm
        exact sizeOf_lt_of_mem_bodyOf hn hb

/-- What is found at a call is what the walk notes there and finds at the calls it makes. -/
theorem noted_append_findings (path : List String) (found : List Finding) (call : Call) :
    (handle schema table path found call).noted ++
      (handle schema table path found call).calls.flatMap
        (findings schema table ((handle schema table path found call).entered?.toList ++ path)) =
      found ++ findings schema table path call := by
  cases call with
  | onOperation operation =>
    rw [handle, findings]
    cases schema.rootType? operation.kind with
    | none => simp
    | some root => simp [List.flatMap_map, findings, selectionsFindings_eq]
  | onSelection parent selection =>
    rw [findings, selectionFindings_eq]
    rcases handle_cases schema table path found parent selection with
      ⟨ht, hs⟩ | ⟨type, ht, ⟨spread, rfl, hp, hs⟩ | ⟨spread, rfl, hp, hs⟩ | ⟨hn, hs⟩⟩
    · simp [hs, ht]
    · simp [hs, ht, inside, hp]
    · simp [hs, ht, inside, hp, List.flatMap_map, findings, selectionsFindings_eq]
    · have : inside schema table path type selection =
          selectionsFindings schema table path type (bodyOf table selection) := by
        cases selection with
        | spread spread => cases hn
        | _ => rfl
      simp [hs, ht, this, List.flatMap_map, findings, selectionsFindings_eq]

theorem evaluates_handle {last : List Finding} {calls : List Call}
    (h : Evaluates (handle schema table) path found calls last) :
    last = found ++ calls.flatMap (findings schema table path) := by
  induction h with
  | nil => simp
  | @cons path found inner last call calls _ _ ihc ihr =>
    rw [ihr, ihc, noted_append_findings, List.flatMap_cons, List.append_assoc]

end Call

/-- On the path of a visit no name stands twice, and every name has a fragment. -/
theorem Visits.path_sound {document : Document} {path : List String} {selection : Selection}
    {parent : TypeDefinition} (h : Visits schema document path selection parent) :
    path.Nodup ∧
      ∀ name ∈ path, ∃ fragment, (FragmentTable.ofDocument document).get? name = some fragment := by
  induction h with
  | root => exact ⟨.nil, fun _ hn => absurd hn List.not_mem_nil⟩
  | @pass path a b _ hp ih =>
    obtain ⟨nodup, defined⟩ := ih
    rw [extend]
    cases hs : spreadName? a.1 with
    | none => exact ⟨nodup, defined⟩
    | some name =>
      obtain ⟨fragment, hf, -⟩ := hp.1.of_spread hs
      refine ⟨List.nodup_cons.2 ⟨hp.2 name hs, nodup⟩, fun other ho => ?_⟩
      rcases List.mem_cons.1 ho with rfl | ho
      · exact ⟨fragment, hf⟩
      · exact defined other ho

/-- **Both walks keep their paths**, however the fragments of the document lead to each
other. Every visit has a path without a name twice and with names of fragments only; the
walk over the operations and the search for ways back keep such a path at every step, give
it back after every call, and end; and what they end with are the findings and the report. -/
theorem walks_keep_paths (schema : Schema) (document : Document) :
    let table := FragmentTable.ofDocument document
    (∀ path selection parent, Visits schema document path selection parent →
      path.Nodup ∧ (∀ name ∈ path, ∃ fragment, table.get? name = some fragment) ∧
        path.length ≤ table.size) ∧
    KeepsPath table 0 (Call.handle schema table)
      (.start [] (document.operations.map .onOperation) []) (documentFindings schema document) ∧
    (∀ path found parent selection rest, Completes (Call.handle schema table)
      ⟨path, .call (.onSelection parent selection) :: rest, found⟩
      ⟨path, rest, found ++ selectionFindings schema table path parent selection⟩) ∧
    (∀ fragment ∈ document.fragments, ∀ report, KeepsPath table 1 table.searchCall
      (.start [fragment.name.value] fragment.selections report)
      (report.afterSearch table fragment)) ∧
    (document.fragments.foldl (CycleReport.afterSearch table) ⟨[], []⟩).diagnostics =
      table.cycles [] document.fragments := by
  intro table
  have hg := Call.guarded_handle schema table
  refine ⟨?_, ?_, ?_, ?_, ?_⟩
  · intro path selection parent hv
    obtain ⟨nodup, defined⟩ := hv.path_sound
    exact ⟨nodup, defined, length_le_size nodup defined⟩
  · obtain ⟨last, he⟩ := hg.exists_evaluates [] (document.operations.map .onOperation) []
    have found : last = documentFindings schema document := by
      rw [Call.evaluates_handle he, List.nil_append, List.flatMap_map]
      rfl
    rw [← found]
    exact hg.keepsPath (.start .nil fun _ hn => absurd hn List.not_mem_nil) he
  · intro path found parent selection rest
    obtain ⟨last, he⟩ := hg.exists_evaluates path [.onSelection parent selection] found
    have complete := he.completes rest
    rw [Call.evaluates_handle he, List.flatMap_singleton] at complete
    exact complete
  · exact fun fragment hm report => FragmentTable.keepsPath_searchCall hm report
  · exact CycleReport.diagnostics_foldl_afterSearch table ⟨[], []⟩ document.fragments

/-- The walk is inside of both fragments when it meets the first of them again. -/
theorem visits_skippingQuery : Visits queryOnly skippingQuery ["Inner", "Outer"]
    (.spread (.named "Outer")) (.object (.named "Query")) := by
  have outer : Visits queryOnly skippingQuery [] (.spread (.named "Outer"))
      (.object (.named "Query")) :=
    .root (List.mem_singleton_self _) (by cbv) List.mem_cons_self
  have inner : Visits queryOnly skippingQuery ["Outer"] (.spread (.named "Inner"))
      (.object (.named "Query")) :=
    .pass (a := (_, _)) (b := (_, _)) outer
      ⟨passes_iff.2 ⟨rfl, List.mem_singleton_self _⟩, by simp⟩
  exact .pass (a := (_, _)) (b := (_, _)) inner
    ⟨passes_iff.2 ⟨rfl, List.mem_singleton_self _⟩, fun _ hs => by cases hs; decide⟩

/-- Of two fragments that spread each other the walk is inside of both at the same time, and of
no more; behind its last call its path is empty again. The search that begins with one of them
comes back to that one, and notes it. -/
theorem skippingQuery_keeps_paths :
    let table := FragmentTable.ofDocument skippingQuery
    let start := State.start [] (skippingQuery.operations.map Call.onOperation) []
    let outer : FragmentDefinition := .ofList "Outer" "Query" [.spread (.named "Inner")]
    (["Inner", "Outer"].Nodup ∧ ["Inner", "Outer"].length ≤ table.size ∧ table.size = 2) ∧
    ((run (Call.handle queryOnly table) 3 start).path = ["Inner", "Outer"] ∧
      (run (Call.handle queryOnly table) 3 start).nesting = 2 ∧
      (run (Call.handle queryOnly table) 3 start).Sound table 0) ∧
    (∃ n, run (Call.handle queryOnly table) n start =
      ⟨[], [], [.repeatedSpread (.named "Outer"), .undefinedSpread (.named "Missing")]⟩) ∧
    ∃ n, run table.searchCall n (.start ["Outer"] outer.selections ⟨[], []⟩) =
      ⟨["Outer"], [], ⟨["Outer"], [FragmentTable.cycle "Outer" .unknown]⟩⟩ := by
  intro table start outer
  obtain ⟨visited, walked, -, searched, -⟩ := walks_keep_paths queryOnly skippingQuery
  obtain ⟨nodup, -, short⟩ := visited _ _ _ visits_skippingQuery
  have found : documentFindings queryOnly skippingQuery =
      [.repeatedSpread (.named "Outer"), .undefinedSpread (.named "Missing")] := by cbv
  have noted : CycleReport.afterSearch table ⟨[], []⟩ outer =
      ⟨["Outer"], [FragmentTable.cycle "Outer" .unknown]⟩ := by cbv
  refine ⟨⟨nodup, short, by cbv⟩, ⟨by cbv, by cbv, walked.sound 3⟩, ?_, ?_⟩
  · rw [← found]
    exact walked.ends
  · rw [← noted]
    exact (searched outer List.mem_cons_self ⟨[], []⟩).ends

end GraphQL.Validation
