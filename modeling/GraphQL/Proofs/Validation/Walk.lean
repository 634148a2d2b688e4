import GraphQL.Proofs.Fragment.Spread
import GraphQL.Proofs.Validation.Reachable

/-!
# Validation — the calls of the walk

The walk looks at one selection after another, each on a type and along a path
of the names that are being expanded. Which calls it makes is said here without
its findings (`Visits`). Main statement: the findings of a document are those
that the walk makes at its visits one by one (`ownFindings`), cuts included.
-/

namespace GraphQL.Validation

/-- The walk looks at a selection on a type, along a path of names. It begins
with the selections of the operations, and passes on unless it meets a name
that is on the path. -/
inductive Visits (schema : Schema) (document : Document) :
    List String → Selection → TypeDefinition → Prop
  | root {operation : Operation} {root : TypeDefinition} {selection : Selection}
      (ho : operation ∈ document.operations) (hr : schema.rootType? operation.kind = some root)
      (hs : selection ∈ operation.selections) : Visits schema document [] selection root
  | pass {path : List String} {a b : Selection × TypeDefinition}
      (h : Visits schema document path a.1 a.2)
      (hp : PassesAlong schema (.ofDocument document) path a b) :
      Visits schema document (extend path a.1) b.1 b.2

variable {schema : Schema} {document : Document} {path : List String} {selection : Selection}
  {parent : TypeDefinition} {finding : Finding}

/-! ## The whole walk -/

/-- Whatever is found from a visit on, is found at a visit by itself. -/
theorem Visits.exists_own {path : List String} {selection : Selection} {parent : TypeDefinition}
    (hv : Visits schema document path selection parent)
    (h : finding ∈ selectionFindings schema (.ofDocument document) path parent selection) :
    ∃ path' selection' parent', Visits schema document path' selection' parent' ∧
      finding ∈ ownFindings schema (.ofDocument document) path' parent' selection' := by
  rcases (mem_selectionFindings_iff (a := (selection, parent))).1 h with h | ⟨b, hb, h⟩
  · exact ⟨path, selection, parent, hv, h⟩
  · exact (Visits.pass (a := (selection, parent)) hv hb).exists_own h
termination_by ((FragmentTable.ofDocument document).unvisited path, sizeOf selection)
decreasing_by exact hb.measure_lt

/-- What is found from a visit on, is found in the document. -/
theorem Visits.mem_documentFindings (hv : Visits schema document path selection parent)
    (h : finding ∈ selectionFindings schema (.ofDocument document) path parent selection) :
    finding ∈ documentFindings schema document := by
  induction hv with
  | root ho hr hs =>
    refine List.mem_flatMap.2 ⟨_, ho, ?_⟩
    simp only [operationFindings, hr, selectionsFindings_eq]
    exact List.mem_flatMap.2 ⟨_, hs, h⟩
  | pass _ hp ih => exact ih (mem_selectionFindings_iff.2 (.inr ⟨_, hp, h⟩))

/-- **The findings of a document** are the missing root types of its operations
and what the walk finds at its visits by themselves. -/
theorem mem_documentFindings_iff_visits :
    finding ∈ documentFindings schema document ↔
      (∃ operation ∈ document.operations, schema.rootType? operation.kind = none ∧
        finding = .problem (.missingRoot operation.kind) operation.pos) ∨
      ∃ path selection parent, Visits schema document path selection parent ∧
        finding ∈ ownFindings schema (.ofDocument document) path parent selection := by
  constructor
  · intro h
    obtain ⟨operation, ho, h⟩ := List.mem_flatMap.1 h
    cases hr : schema.rootType? operation.kind with
    | none =>
      simp only [operationFindings, hr, List.mem_singleton] at h
      exact .inl ⟨operation, ho, hr, h⟩
    | some root =>
      simp only [operationFindings, hr, selectionsFindings_eq] at h
      obtain ⟨selection, hs, h⟩ := List.mem_flatMap.1 h
      exact .inr ((Visits.root ho hr hs).exists_own h)
  · rintro (⟨operation, ho, hr, rfl⟩ | ⟨path, selection, parent, hv, h⟩)
    · exact List.mem_flatMap.2 ⟨operation, ho, by simp [operationFindings, hr]⟩
    · exact hv.mem_documentFindings
        ((mem_selectionFindings_iff (a := (selection, parent))).2 (.inl h))

/-! ## What holds at every visit -/

/-- What the walk looks at is reachable. -/
theorem Visits.reachable (h : Visits schema document path selection parent) :
    Reachable schema document selection parent := by
  induction h with
  | root ho hr hs => exact .root ho hr hs
  | pass _ hp ih =>
    obtain ⟨body, hd, hi⟩ := hp.1
    exact ih.descend hd hi

/-- **Every name on the path leads to the visit**: it spreads, directly or
through others, whatever is spread in the selection. -/
theorem Visits.ahead (h : Visits schema document path selection parent) :
    (FragmentTable.ofDocument document).Ahead path [selection] := by
  induction h with
  | root => exact FragmentTable.ahead_nil _
  | @pass path a b _ hp ih =>
    obtain ⟨first, type⟩ := a
    have hi := (passes_iff.1 hp.1).2
    -- below a spread the path is one longer, elsewhere the spreads become fewer
    have below : ∀ {path body}, (FragmentTable.ofDocument document).Ahead path body →
        b.1 ∈ body → (FragmentTable.ofDocument document).Ahead path [b.1] := by
      intro path body ha hm
      refine ha.mono fun spread hs => ?_
      rw [Selection.mem_spreadsOfList_iff] at hs ⊢
      obtain ⟨selection, hf, hs⟩ := hs
      cases List.mem_singleton.1 hf
      exact ⟨_, hm, hs⟩
    cases first with
    | field field => exact below ih.field hi
    | inline fragment => exact below ih.inline hi
    | spread spread =>
      obtain ⟨fragment, hf, -⟩ := hp.1.of_spread rfl
      rw [bodyOf_of_spread rfl hf] at hi
      exact below (ih.spread hf) hi

end GraphQL.Validation
