import GraphQL.Proofs.Validation.Reachable

/-!
# Validation — diagnostics as local problems

What is wrong with a selection on a type by itself (`LocalProblem`), and the
set of diagnostics of a document: one for every operation without a root type
and one for every local problem of a reachable pair, and no others.
-/

namespace GraphQL.Validation

/-! ## What is wrong with one selection -/

/-- What is wrong with a selection on `parent` by itself, and where. -/
inductive LocalProblem (schema : Schema) (table : FragmentTable) (parent : TypeDefinition) :
    Selection → Problem → Position → Prop
  | unknownField {field : FieldSelection} (hf : schema.field? parent field.name.value = none) :
      LocalProblem schema table parent (.field field)
        (.unknownField field.name.value parent.name) field.pos
  | argument {field : FieldSelection} {definition : FieldDefinition} {cause : Problem}
      {p : Position} (hf : schema.field? parent field.name.value = some definition)
      (ha : .problem cause p ∈ argumentFindings schema parent field definition) :
      LocalProblem schema table parent (.field field) cause p
  | missingSelection {field : FieldSelection} {definition : FieldDefinition}
      {type : TypeDefinition} (hf : schema.field? parent field.name.value = some definition)
      (ht : schema.type? definition.type.base = some type) (hs : type.hasSubfields = true)
      (he : field.selections = []) :
      LocalProblem schema table parent (.field field)
        (.missingSelection field.name.value definition.type) field.pos
  | forbiddenSelection {field : FieldSelection} {definition : FieldDefinition}
      {type : TypeDefinition} (hf : schema.field? parent field.name.value = some definition)
      (ht : schema.type? definition.type.base = some type) (hs : type.hasSubfields = false)
      (he : field.selections ≠ []) :
      LocalProblem schema table parent (.field field)
        (.forbiddenSelection field.name.value definition.type) field.pos
  | unknownType {selection : Selection} {name : Option String} {condition : String}
      {p : Position} {body : List Selection}
      (hs : Conditioned table selection name condition p body)
      (ht : schema.type? condition = none) :
      LocalProblem schema table parent selection (.unknownType condition) p
  | noOverlap {selection : Selection} {name : Option String} {condition : String}
      {p : Position} {body : List Selection} {type : TypeDefinition}
      (hs : Conditioned table selection name condition p body)
      (ht : schema.type? condition = some type) (hu : ∀ union, parent ≠ .union union)
      (ho : schema.overlap type parent = false) :
      LocalProblem schema table parent selection
        (.impossibleSpread name parent.name type.name) p
  | notMember {selection : Selection} {name : Option String} {condition : String}
      {p : Position} {body : List Selection} {type : TypeDefinition} {union : UnionType}
      (hs : Conditioned table selection name condition p body)
      (ht : schema.type? condition = some type) (hu : parent = .union union)
      (hm : union.hasMember type.name = false) :
      LocalProblem schema table parent selection
        (.impossibleSpread name parent.name type.name) p

/-! ## Local problems are what a step finds -/

variable {schema : Schema} {table : FragmentTable} {parent : TypeDefinition}
  {cause : Problem} {p : Position}

/-- A step at a field finds its local problems. -/
theorem problem_mem_fieldStep_iff {field : FieldSelection} :
    .problem cause p ∈ (fieldStep schema parent field).findings ↔
      LocalProblem schema table parent (.field field) cause p := by
  constructor
  · intro h
    cases hf : schema.field? parent field.name.value with
    | none =>
      simp only [fieldStep, hf, List.mem_singleton] at h
      cases h
      exact .unknownField hf
    | some definition =>
      cases ht : schema.type? definition.type.base with
      | none =>
        simp only [fieldStep, hf, ht] at h
        exact .argument hf h
      | some type =>
        cases hs : type.hasSubfields <;> by_cases he : field.selections = [] <;>
          simp only [fieldStep, hf, ht, hs, he, List.isEmpty_nil, List.isEmpty_iff, if_true,
            if_false, List.mem_append, List.mem_singleton, Bool.false_eq_true] at h
        · exact .argument hf h
        · rcases h with h | h
          · exact .argument hf h
          · cases h
            exact .forbiddenSelection hf ht hs he
        · rcases h with h | h
          · exact .argument hf h
          · cases h
            exact .missingSelection hf ht hs he
        · exact .argument hf h
  · intro h
    cases h with
    | unknownField hf => simp [fieldStep, hf]
    | argument hf ha =>
      obtain ⟨own, ho, -⟩ := fieldStep_findings hf
      rw [ho]
      exact List.mem_append_left _ ha
    | missingSelection hf ht hs he => simp [fieldStep, hf, ht, hs, he]
    | forbiddenSelection hf ht hs he => simp [fieldStep, hf, ht, hs, he]
    | unknownType hs => cases hs
    | noOverlap hs => cases hs
    | notMember hs => cases hs

/-- A selection stands for at most one fragment with a type condition. -/
theorem Conditioned.unique {selection : Selection} {name other : Option String}
    {condition condition' : String} {p q : Position} {body body' : List Selection}
    (h : Conditioned table selection name condition p body)
    (h' : Conditioned table selection other condition' q body') :
    other = name ∧ condition' = condition ∧ q = p := by
  cases h with
  | inline hc =>
    cases h' with
    | inline hc' =>
      cases hc.symm.trans hc'
      exact ⟨rfl, rfl, rfl⟩
  | spread hf =>
    cases h' with
    | spread hf' =>
      cases hf.symm.trans hf'
      exact ⟨rfl, rfl, rfl⟩

/-- A step at a fragment with a type condition finds its local problems. -/
theorem Conditioned.problem_mem_iff {selection : Selection} {name : Option String}
    {condition : String} {q : Position} {body : List Selection}
    (h : Conditioned table selection name condition q body) :
    .problem cause p ∈ (fragmentStep schema parent name condition q).findings ↔
      LocalProblem schema table parent selection cause p := by
  constructor
  · intro hm
    rcases fragmentStep_cases schema parent name condition q with
      ⟨hn, hs⟩ | ⟨type, ht, ⟨union, hu, hk, hs⟩ | ⟨union, hu, hk, hs⟩ | ⟨hu, hs⟩⟩
    · simp only [hs, List.mem_singleton] at hm
      cases hm
      exact .unknownType h hn
    · simp [hs] at hm
    · simp only [hs, List.mem_singleton] at hm
      cases hm
      exact .notMember h ht hu hk
    · cases ho : schema.overlap type parent with
      | true => simp [hs, ho] at hm
      | false =>
        simp only [hs, ho, Bool.false_eq_true, if_false, List.mem_singleton] at hm
        cases hm
        exact .noOverlap h ht hu ho
  · intro hl
    cases hl with
    | unknownField => cases h
    | argument => cases h
    | missingSelection => cases h
    | forbiddenSelection => cases h
    | unknownType hs ht =>
      obtain ⟨rfl, rfl, rfl⟩ := h.unique hs
      simp [fragmentStep, ht]
    | noOverlap hs ht hu ho =>
      obtain ⟨rfl, rfl, rfl⟩ := h.unique hs
      cases parent with
      | union union => exact absurd rfl (hu union)
      | _ => simp [fragmentStep, ht, ho]
    | notMember hs ht hu hm =>
      obtain ⟨rfl, rfl, rfl⟩ := h.unique hs
      subst hu
      simp [fragmentStep, ht, hm]

/-- A step finds the local problems of its selection. -/
theorem problem_mem_selectionStep_iff {selection : Selection} :
    .problem cause p ∈ (selectionStep schema table parent selection).findings ↔
      LocalProblem schema table parent selection cause p := by
  cases selection with
  | field field => exact problem_mem_fieldStep_iff
  | inline fragment =>
    cases hc : fragment.typeCondition with
    | some condition =>
      rw [selectionStep, inlineStep_of_some hc]
      exact (Conditioned.inline hc).problem_mem_iff
    | none =>
      have hno : ¬ LocalProblem schema table parent (.inline fragment) cause p := by
        intro hl
        cases hl with
        | unknownType hs => cases hs; simp_all
        | noOverlap hs => cases hs; simp_all
        | notMember hs => cases hs; simp_all
      simp [selectionStep, inlineStep_of_none hc, hno]
  | spread spread =>
    cases hf : table.get? spread.name.value with
    | some fragment =>
      simp only [selectionStep, hf]
      exact (Conditioned.spread hf).problem_mem_iff
    | none =>
      have hno : ¬ LocalProblem schema table parent (.spread spread) cause p := by
        intro hl
        cases hl with
        | unknownType hs => cases hs; simp_all
        | noOverlap hs => cases hs; simp_all
        | notMember hs => cases hs; simp_all
      simp [selectionStep, hf, hno]

/-! ## The diagnostics of a document -/

/-- The diagnostics of a document are those of the problems the walk finds. -/
theorem mem_diagnostics_iff {document : Document} {diagnostic : Diagnostic} :
    diagnostic ∈ (schema.validate document).diagnostics ↔
      ∃ cause p, .problem cause p ∈ documentFindings schema document ∧
        diagnostic = .located cause.message p := by
  simp only [Schema.validate, List.mem_filterMap]
  constructor
  · rintro ⟨finding, hm, hd⟩
    cases finding with
    | problem cause p =>
      cases hd
      exact ⟨cause, p, hm, rfl⟩
    | _ => cases hd
  · rintro ⟨cause, p, hm, rfl⟩
    exact ⟨_, hm, rfl⟩

/-- **The diagnostics of a document are its local problems**: as a set, one for
every operation without a root type and one for every local problem of a
reachable selection, whatever fragments spread each other. -/
theorem diagnostic_mem_validate_iff (schema : Schema) (document : Document)
    (diagnostic : Diagnostic) :
    diagnostic ∈ (schema.validate document).diagnostics ↔
      (∃ operation ∈ document.operations, schema.rootType? operation.kind = none ∧
        diagnostic = .located (Problem.missingRoot operation.kind).message operation.pos) ∨
      ∃ selection parent cause p, Reachable schema document selection parent ∧
        LocalProblem schema (.ofDocument document) parent selection cause p ∧
        diagnostic = .located cause.message p := by
  rw [mem_diagnostics_iff]
  constructor
  · rintro ⟨cause, p, hm, rfl⟩
    rcases (mem_documentFindings_iff (by simp [IsCut])).1 hm with
      ⟨operation, ho, hr, hf⟩ | ⟨selection, parent, hs, hf⟩
    · cases hf
      exact .inl ⟨operation, ho, hr, rfl⟩
    · exact .inr ⟨selection, parent, cause, p, hs, problem_mem_selectionStep_iff.1 hf, rfl⟩
  · rintro (⟨operation, ho, hr, rfl⟩ | ⟨selection, parent, cause, p, hs, hl, rfl⟩)
    · exact ⟨_, _, (mem_documentFindings_iff (by simp [IsCut])).2 (.inl ⟨operation, ho, hr, rfl⟩),
        rfl⟩
    · exact ⟨cause, p, (mem_documentFindings_iff (by simp [IsCut])).2
        (.inr ⟨selection, parent, hs, problem_mem_selectionStep_iff.2 hl⟩), rfl⟩

end GraphQL.Validation
