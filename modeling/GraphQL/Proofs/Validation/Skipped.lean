import GraphQL.Document.Build
import GraphQL.Proofs.Validation.Literal
import GraphQL.Proofs.Validation.Valid
import GraphQL.Proofs.Validation.Walk
import Mathlib.Data.List.Basic

/-!
# Validation — what the walk skips is reported

The walk says nothing of two spreads that it does not follow: one of a name
that no fragment defines, and one of a fragment that is being expanded. It
leaves both to the report on the document's fragments, which looks at no types
and follows spreads in an order of its own. Main statement: that report names
every spread that the walk skips, so a document without fragment problems has
each of its spreads followed.
-/

namespace GraphQL.Validation

variable {schema : Schema} {document : Document} {path : List String} {parent : TypeDefinition}
  {selection : Selection} {spread : FragmentSpread} {finding : Finding}

/-! ## Findings of a step -/

/-- The finding is that a spread is not followed. -/
def IsSkip : Finding → Prop
  | .undefinedSpread _ | .repeatedSpread _ => True
  | _ => False

theorem not_isSkip_of_mem_literalFindings {type : TypeRef} {literal : Literal}
    (h : finding ∈ literalFindings schema type literal) : ¬ IsSkip finding := by
  rcases found_in_literal h with ⟨_, _, rfl⟩ | ⟨_, _, _, -, hf⟩
  · simp [IsSkip]
  · cases hf <;> simp [IsSkip]

theorem not_isSkip_of_mem_argumentFindings {field : FieldSelection} {definition : FieldDefinition}
    (h : finding ∈ argumentFindings schema parent field definition) : ¬ IsSkip finding := by
  rcases List.mem_append.1 h with h | h
  · obtain ⟨argument, -, h⟩ := List.mem_flatMap.1 h
    unfold suppliedFindings at h
    split at h
    · exact not_isSkip_of_mem_literalFindings h
    · cases List.mem_singleton.1 h
      simp [IsSkip]
  · obtain ⟨declared, -, h⟩ := List.mem_flatMap.1 h
    unfold missingFindings at h
    split at h
    · cases List.mem_singleton.1 h
      simp [IsSkip]
    · cases h

theorem not_isSkip_of_mem_fieldStep {field : FieldSelection}
    (h : finding ∈ (fieldStep schema parent field).findings) : ¬ IsSkip finding := by
  cases hf : schema.field? parent field.name.value with
  | none =>
    simp only [fieldStep, hf, List.mem_singleton] at h
    subst h
    simp [IsSkip]
  | some definition =>
    obtain ⟨own, ho, hp⟩ := fieldStep_findings hf
    rw [ho, List.mem_append] at h
    rcases h with h | h
    · exact not_isSkip_of_mem_argumentFindings h
    · obtain ⟨_, _, rfl⟩ := hp finding h
      simp [IsSkip]

theorem not_isSkip_of_mem_fragmentStep {name : Option String} {condition : String} {p : Position}
    (h : finding ∈ (fragmentStep schema parent name condition p).findings) : ¬ IsSkip finding := by
  rcases fragmentStep_cases schema parent name condition p with
    ⟨-, hs⟩ | ⟨type, -, ⟨_, -, -, hs⟩ | ⟨_, -, -, hs⟩ | ⟨-, hs⟩⟩
  · rw [hs] at h
    cases List.mem_singleton.1 h
    simp [IsSkip]
  · rw [hs] at h
    cases h
  · rw [hs] at h
    cases List.mem_singleton.1 h
    simp [IsSkip]
  · rw [hs] at h
    split at h
    · cases h
    · cases List.mem_singleton.1 h
      simp [IsSkip]

/-- A step skips nothing but a spread that has no fragment. -/
theorem eq_undefinedSpread_of_mem_selectionStep {table : FragmentTable}
    (h : finding ∈ (selectionStep schema table parent selection).findings) (hs : IsSkip finding) :
    ∃ spread, selection = .spread spread ∧ table.get? spread.name.value = none ∧
      finding = .undefinedSpread spread := by
  cases selection with
  | field field => exact absurd hs (not_isSkip_of_mem_fieldStep h)
  | inline fragment =>
    cases hc : fragment.typeCondition with
    | none => simp [selectionStep, inlineStep_of_none hc] at h
    | some condition =>
      rw [selectionStep, inlineStep_of_some hc] at h
      exact absurd hs (not_isSkip_of_mem_fragmentStep h)
  | spread spread =>
    cases hf : table.get? spread.name.value with
    | none =>
      simp only [selectionStep, hf, List.mem_singleton] at h
      exact ⟨spread, rfl, hf, h⟩
    | some fragment =>
      simp only [selectionStep, hf] at h
      exact absurd hs (not_isSkip_of_mem_fragmentStep h)

/-! ## Where the walk skips -/

theorem exists_visit_of_undefinedSpread
    (h : .undefinedSpread spread ∈ documentFindings schema document) :
    ∃ path parent, Visits schema document path (.spread spread) parent ∧
      (FragmentTable.ofDocument document).get? spread.name.value = none := by
  rcases mem_documentFindings_iff_visits.1 h with ⟨_, _, _, hf⟩ | ⟨path, selection, parent, hv, hf⟩
  · cases hf
  · rcases List.mem_append.1 hf with hf | hf
    · obtain ⟨found, rfl, hn, he⟩ := eq_undefinedSpread_of_mem_selectionStep hf trivial
      cases he
      exact ⟨path, parent, hv, hn⟩
    · unfold cutFindings at hf
      split at hf
      · split at hf <;> simp at hf
      · cases hf

theorem exists_visit_of_repeatedSpread
    (h : .repeatedSpread spread ∈ documentFindings schema document) :
    ∃ path parent, Visits schema document path (.spread spread) parent ∧
      spread.name.value ∈ path := by
  rcases mem_documentFindings_iff_visits.1 h with ⟨_, _, _, hf⟩ | ⟨path, selection, parent, hv, hf⟩
  · cases hf
  · rcases List.mem_append.1 hf with hf | hf
    · obtain ⟨_, _, _, he⟩ := eq_undefinedSpread_of_mem_selectionStep hf trivial
      cases he
    · unfold cutFindings at hf
      split at hf
      · split at hf
        · rename_i hc
          cases List.mem_singleton.1 hf
          exact ⟨path, parent, hv, hc.2⟩
        · cases hf
      · cases hf

/-! ## Every skip is reported -/

/-- A spread without a fragment is reported wherever the walk meets it. -/
theorem Visits.unknown_mem_fragmentProblems
    (h : Visits schema document path (.spread spread) parent)
    (hf : (FragmentTable.ofDocument document).get? spread.name.value = none) :
    FragmentTable.unknown spread ∈ document.fragmentProblems := by
  refine Document.unknown_mem_fragmentProblems (h.reachable.mem_spreads ?_) hf
  rw [Selection.spreads_spread]
  exact List.mem_singleton.2 rfl

/-- A name that the walk meets while it is on the path leads back to itself. -/
theorem Visits.exists_cycle_mem_fragmentProblems
    (h : Visits schema document path (.spread spread) parent) (hn : spread.name.value ∈ path) :
    ∃ p, FragmentTable.cycle spread.name.value p ∈ document.fragmentProblems :=
  Document.cycle_mem_fragmentProblems (h.ahead.leads hn)

/-- **Whatever the walk skips, the report on fragments names**: a spread of an
unknown name at its position, and a spread that is cut with its name. So in a
document without fragment problems nothing is skipped, and every spread that
the walk meets has a fragment that is not being expanded. -/
theorem skipped_spreads_reported (schema : Schema) (document : Document) :
    (∀ spread, .undefinedSpread spread ∈ documentFindings schema document →
      .located ("Unknown fragment \"" ++ spread.name.value ++ "\".") spread.pos ∈
        document.fragmentProblems) ∧
    (∀ spread, .repeatedSpread spread ∈ documentFindings schema document →
      ∃ p, .located ("Cannot spread fragment \"" ++ spread.name.value ++ "\" within itself.") p ∈
        document.fragmentProblems) ∧
    (document.fragmentProblems = [] →
      (∀ finding ∈ documentFindings schema document, ¬ IsSkip finding) ∧
      ∀ path spread parent, Visits schema document path (.spread spread) parent →
        (∃ fragment,
          (FragmentTable.ofDocument document).get? spread.name.value = some fragment) ∧
        spread.name.value ∉ path) := by
  have undefined : ∀ spread, .undefinedSpread spread ∈ documentFindings schema document →
      FragmentTable.unknown spread ∈ document.fragmentProblems := by
    intro spread h
    obtain ⟨path, parent, hv, hf⟩ := exists_visit_of_undefinedSpread h
    exact hv.unknown_mem_fragmentProblems hf
  have repeated : ∀ spread, .repeatedSpread spread ∈ documentFindings schema document →
      ∃ p, FragmentTable.cycle spread.name.value p ∈ document.fragmentProblems := by
    intro spread h
    obtain ⟨path, parent, hv, hn⟩ := exists_visit_of_repeatedSpread h
    exact hv.exists_cycle_mem_fragmentProblems hn
  refine ⟨undefined, repeated, fun hp => ⟨?_, ?_⟩⟩
  · rw [hp] at undefined repeated
    intro finding hm hs
    cases finding with
    | undefinedSpread spread => cases undefined spread hm
    | repeatedSpread spread =>
      obtain ⟨p, h⟩ := repeated spread hm
      cases h
    | _ => cases hs
  · intro path spread parent hv
    refine ⟨?_, ?_⟩
    · rw [← Option.ne_none_iff_exists']
      intro hf
      have h := hv.unknown_mem_fragmentProblems hf
      rw [hp] at h
      cases h
    · intro hn
      obtain ⟨p, h⟩ := hv.exists_cycle_mem_fragmentProblems hn
      rw [hp] at h
      cases h

/-- A schema with nothing but a query root. -/
def queryOnly : Schema := Schema.empty.withType (.object (.named "Query"))

/-- A query with a spread that comes back to its fragment through another one,
and a spread of a name that no fragment has. -/
def skippingQuery : Document :=
  ⟨[.operation (.ofList .query [.spread (.named "Outer"), .spread (.named "Missing")]),
    .fragment (.ofList "Outer" "Query" [.spread (.named "Inner")]),
    .fragment (.ofList "Inner" "Query" [.spread (.named "Outer")])]⟩

/-- The walk skips both and finds nothing wrong; the report names both. -/
theorem skippingQuery_reported :
    (queryOnly.validate skippingQuery).diagnostics = [] ∧
      .undefinedSpread (.named "Missing") ∈ documentFindings queryOnly skippingQuery ∧
      .repeatedSpread (.named "Outer") ∈ documentFindings queryOnly skippingQuery ∧
      .located "Unknown fragment \"Missing\"." .unknown ∈ skippingQuery.fragmentProblems ∧
      ∃ p, .located "Cannot spread fragment \"Outer\" within itself." p ∈
        skippingQuery.fragmentProblems := by
  have found : documentFindings queryOnly skippingQuery =
      [.repeatedSpread (.named "Outer"), .undefinedSpread (.named "Missing")] := by cbv
  obtain ⟨undefined, repeated, -⟩ := skipped_spreads_reported queryOnly skippingQuery
  rw [found] at undefined repeated ⊢
  refine ⟨by cbv, by simp, by simp, undefined (.named "Missing") (by simp),
    repeated (.named "Outer") (by simp)⟩

end GraphQL.Validation
