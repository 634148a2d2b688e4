import GraphQL.Proofs.Fragment.Cycle
import GraphQL.Proofs.Validation.Diagnostics

/-!
# Validation — what a valid document is like

In a document without problems nothing that is reached has a local problem.
So every operation has its root type, every fragment that is reached is
looked into (`Passable`), and the arguments of every field that is reached
are the declared ones, the required ones among them.
-/

namespace GraphQL.Validation

variable {schema : Schema} {document : Document} {selection : Selection} {parent : TypeDefinition}

/-- Every fragment that is reached is looked into. -/
def Passable (schema : Schema) (document : Document) : Prop :=
  ∀ selection parent, Reachable schema document selection parent →
    (∀ field, selection ≠ .field field) →
    ∃ body type, Descends schema (.ofDocument document) parent selection body type

theorem problem_not_mem_documentFindings (h : (schema.validate document).diagnostics = [])
    (cause : Problem) (p : Position) : .problem cause p ∉ documentFindings schema document := by
  intro hm
  have hd := mem_diagnostics_iff.2 ⟨cause, p, hm, rfl⟩
  rw [h] at hd
  cases hd

theorem not_localProblem (h : (schema.validate document).diagnostics = [])
    (hr : Reachable schema document selection parent) (cause : Problem) (p : Position) :
    ¬ LocalProblem schema (.ofDocument document) parent selection cause p := by
  intro hl
  apply problem_not_mem_documentFindings h cause p
  rw [mem_documentFindings_iff (by simp [IsCut])]
  exact .inr ⟨selection, parent, hr, problem_mem_selectionStep_iff.2 hl⟩

theorem exists_rootType (h : (schema.validate document).diagnostics = []) {operation : Operation}
    (ho : operation ∈ document.operations) :
    ∃ root, schema.rootType? operation.kind = some root := by
  rw [← Option.ne_none_iff_exists']
  intro hn
  apply problem_not_mem_documentFindings h (.missingRoot operation.kind) operation.pos
  rw [mem_documentFindings_iff (by simp [IsCut])]
  exact .inl ⟨operation, ho, hn, rfl⟩

/-- The spreads in what is reached are spreads of the document. -/
theorem Reachable.mem_spreads (h : Reachable schema document selection parent)
    {spread : FragmentSpread} (hs : spread ∈ selection.spreads) : document.HasSpread spread := by
  induction h with
  | root ho _ hm => exact .inl ⟨_, ho, Selection.mem_spreadsOfList_iff.2 ⟨_, hm, hs⟩⟩
  | descend _ hd hm ih =>
    have hs := Selection.mem_spreadsOfList_iff.2 ⟨_, hm, hs⟩
    cases hd with
    | field => exact ih (by rwa [Selection.spreads_field])
    | bare => exact ih (by rwa [Selection.spreads_inline])
    | conditioned hc =>
      cases hc with
      | inline => exact ih (by rwa [Selection.spreads_inline])
      | spread hf => exact .inr ⟨_, List.mem_of_find?_eq_some hf, hs⟩

/-- The condition of a fragment without a local problem is a type that fits its parent. -/
theorem Conditioned.exists_type? {table : FragmentTable} {name : Option String}
    {condition : String} {p : Position} {body : List Selection}
    (hc : Conditioned table selection name condition p body)
    (hn : ∀ cause p, ¬ LocalProblem schema table parent selection cause p) :
    ∃ type, schema.type? condition = some type ∧ Admits parent type ∧
      ((∀ union, parent ≠ .union union) → schema.overlap type parent = true) := by
  cases ht : schema.type? condition with
  | none => exact absurd (.unknownType hc ht) (hn _ _)
  | some type =>
    refine ⟨type, rfl, ?_, ?_⟩
    · intro union hu
      cases hm : union.hasMember type.name with
      | true => rfl
      | false => exact absurd (.notMember hc ht hu hm) (hn _ _)
    · intro hu
      cases ho : schema.overlap type parent with
      | true => rfl
      | false => exact absurd (.noOverlap hc ht hu ho) (hn _ _)

/-- A fragment without a local problem is looked into. -/
theorem Conditioned.exists_descends {table : FragmentTable} {name : Option String}
    {condition : String} {p : Position} {body : List Selection}
    (hc : Conditioned table selection name condition p body)
    (hn : ∀ cause p, ¬ LocalProblem schema table parent selection cause p) :
    ∃ body type, Descends schema table parent selection body type := by
  obtain ⟨type, ht, ha, -⟩ := hc.exists_type? hn
  exact ⟨body, type, .conditioned hc ht ha⟩

/-- **In a valid document every fragment that is reached is looked into.** -/
theorem passable_of_check (h : schema.check document = []) : Passable schema document := by
  obtain ⟨hp, hd⟩ := List.append_eq_nil_iff.1 h
  intro selection parent hr hs
  have hn := not_localProblem hd hr
  cases selection with
  | field field => exact absurd rfl (hs field)
  | inline fragment =>
    cases hc : fragment.typeCondition with
    | none => exact ⟨_, _, .bare hc⟩
    | some condition => exact (Conditioned.inline hc).exists_descends hn
  | spread spread =>
    obtain ⟨fragment, hf⟩ := Document.exists_fragment_of_fragmentProblems_eq_nil hp
      (hr.mem_spreads (by rw [Selection.spreads_spread]; exact List.mem_singleton.2 rfl))
    exact (Conditioned.spread hf).exists_descends hn

/-! ## Fields of a valid document -/

variable {field : FieldSelection} {definition : FieldDefinition}

theorem exists_definition (h : (schema.validate document).diagnostics = [])
    (hr : Reachable schema document (.field field) parent) :
    ∃ definition, schema.field? parent field.name.value = some definition := by
  rw [← Option.ne_none_iff_exists']
  intro hn
  exact not_localProblem h hr _ _ (.unknownField hn)

theorem problem_not_mem_argumentFindings (h : (schema.validate document).diagnostics = [])
    (hr : Reachable schema document (.field field) parent)
    (hf : schema.field? parent field.name.value = some definition) (cause : Problem)
    (p : Position) : .problem cause p ∉ argumentFindings schema parent field definition :=
  fun ha => not_localProblem h hr cause p (.argument hf ha)

/-- Every argument without problems is declared, and its literal has none. -/
theorem exists_input
    (h : ∀ cause p, .problem cause p ∉ argumentFindings schema parent field definition)
    {argument : Argument} (ha : argument ∈ field.arguments) :
    ∃ input, definition.arguments.get? argument.name.value = some input ∧
      ∀ cause p, .problem cause p ∉ literalFindings schema input.type argument.value := by
  have hs : ∀ cause p, .problem cause p ∉ suppliedFindings schema parent field definition argument :=
    fun cause p hm => h cause p (List.mem_append_left _ (List.mem_flatMap.2 ⟨argument, ha, hm⟩))
  unfold suppliedFindings at hs
  cases hi : definition.arguments.get? argument.name.value with
  | none =>
    simp only [hi] at hs
    exact absurd List.mem_cons_self (hs _ _)
  | some input =>
    simp only [hi] at hs
    exact ⟨input, rfl, hs⟩

/-- Every required argument is written. -/
theorem exists_argument
    (h : ∀ cause p, .problem cause p ∉ argumentFindings schema parent field definition)
    {name : String} {input : InputValue} (hd : (name, input) ∈ definition.arguments.entries)
    (hr : input.isRequired = true) : ∃ argument ∈ field.arguments, argument.name.value = name := by
  apply Classical.byContradiction
  intro hn
  have hw : (field.arguments.any fun argument => argument.name.value == name) = false := by
    rw [List.any_eq_false]
    intro argument ha he
    exact hn ⟨argument, ha, by simpa using he⟩
  refine h (.missingArgument field.name.value name input.type) field.pos ?_
  refine List.mem_append_right _ (List.mem_flatMap.2 ⟨_, hd, ?_⟩)
  simp [missingFindings, hr, hw]

end GraphQL.Validation
