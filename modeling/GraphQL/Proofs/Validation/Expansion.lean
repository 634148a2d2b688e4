import GraphQL.Document.Build
import GraphQL.Proofs.Fragment.Expansion
import GraphQL.Proofs.Validation.Diagnostics
import GraphQL.Proofs.Validation.Literal

/-!
# Validation — spreads mean their expansions

On an acyclic document the walk finds in the expansion what it finds in the
document, in the same order and at the same places. Only a fragment that can
never apply is named in the one and not in the other (`nameless`). The path
of names, which the walk carries along for cyclic documents, never shows.
-/

namespace GraphQL

/-- The problem as it is reported of an inline fragment. -/
def Problem.nameless : Problem → Problem
  | .impossibleSpread _ parent type => .impossibleSpread none parent type
  | cause => cause

namespace Finding

/-- The finding as it is made at an inline fragment. -/
def nameless : Finding → Finding
  | .problem cause p => .problem cause.nameless p
  | finding => finding

/-- The problem of a finding and where it is, if it is a problem. -/
def problem? : Finding → Option (Problem × Position)
  | .problem cause p => some (cause, p)
  | _ => none

theorem diagnostic?_eq (finding : Finding) :
    finding.diagnostic? = finding.problem?.map fun found => .located found.1.message found.2 := by
  cases finding <;> rfl

theorem problem?_nameless (finding : Finding) :
    finding.nameless.problem? = finding.problem?.map fun found => (found.1.nameless, found.2) := by
  cases finding <;> rfl

end Finding

namespace Validation

variable {schema : Schema} {table : FragmentTable} {parent : TypeDefinition}

/-! ## Findings that name no fragment -/

theorem nameless_of_mem_literalFindings {type : TypeRef} {literal : Literal} {finding : Finding}
    (h : finding ∈ literalFindings schema type literal) : finding.nameless = finding := by
  rcases found_in_literal h with ⟨_, _, rfl⟩ | ⟨_, _, _, -, hf⟩
  · rfl
  · cases hf <;> rfl

theorem nameless_of_mem_argumentFindings {field : FieldSelection} {definition : FieldDefinition}
    {finding : Finding} (h : finding ∈ argumentFindings schema parent field definition) :
    finding.nameless = finding := by
  rcases List.mem_append.1 h with h | h
  · obtain ⟨argument, -, h⟩ := List.mem_flatMap.1 h
    unfold suppliedFindings at h
    split at h
    · exact nameless_of_mem_literalFindings h
    · cases List.mem_singleton.1 h
      rfl
  · obtain ⟨declared, -, h⟩ := List.mem_flatMap.1 h
    unfold missingFindings at h
    split at h
    · cases List.mem_singleton.1 h
      rfl
    · cases h

/-! ## One step on both sides -/

/-- No finding at a field names a fragment. -/
theorem map_nameless_fieldStep (field : FieldSelection) :
    (fieldStep schema parent field).findings.map Finding.nameless =
      (fieldStep schema parent field).findings := by
  refine (List.map_congr_left ?_).trans (List.map_id _)
  intro finding hm
  cases finding with
  | problem cause p =>
    have hl : LocalProblem schema ⟨[]⟩ parent (.field field) cause p :=
      problem_mem_fieldStep_iff.1 hm
    cases hl with
    | argument _ ha => exact nameless_of_mem_argumentFindings ha
    | unknownType hs => cases hs
    | noOverlap hs => cases hs
    | notMember hs => cases hs
    | _ => rfl
  | _ => rfl

/-- The step at a field looks at its selections only to see whether there are any. -/
theorem fieldStep_congr {field other : FieldSelection} (hn : other.name = field.name)
    (ha : other.arguments = field.arguments) (hp : other.pos = field.pos)
    (hs : other.selections.isEmpty = field.selections.isEmpty) :
    fieldStep schema parent other = fieldStep schema parent field := by
  have hm : missingFindings other = missingFindings field := by
    funext declared
    simp only [missingFindings, hn, ha, hp]
  have hf : suppliedFindings schema parent other = suppliedFindings schema parent field := by
    funext definition argument
    simp only [suppliedFindings, hn]
  simp only [fieldStep, argumentFindings, hn, ha, hp, hs, hm, hf]

/-- An inline fragment is a spread without a name. -/
theorem fragmentStep_none (schema : Schema) (parent : TypeDefinition) (name : Option String)
    (condition : String) (p : Position) :
    fragmentStep schema parent none condition p =
      ⟨(fragmentStep schema parent name condition p).findings.map Finding.nameless,
        (fragmentStep schema parent name condition p).type?⟩ := by
  cases ht : schema.type? condition with
  | none => simp [fragmentStep, ht, Finding.nameless, Problem.nameless]
  | some type =>
    cases parent with
    | union union =>
      cases hm : union.hasMember type.name <;>
        simp [fragmentStep, ht, hm, Finding.nameless, Problem.nameless]
    | _ =>
      simp only [fragmentStep, ht]
      split <;> simp [Finding.nameless, Problem.nameless]

/-! ## The walk on both sides -/

/-- Two selections with the same step, up to names of fragments, and the same
findings below them, up to those names, have the same findings up to them. -/
theorem selectionFindings_of_step {path path' : List String} {selection other : Selection}
    (hs : (selectionStep schema table parent other).findings =
      (selectionStep schema table parent selection).findings.map Finding.nameless)
    (ht : (selectionStep schema table parent other).type? =
      (selectionStep schema table parent selection).type?)
    (hi : ∀ type, inside schema table path' type other =
      (inside schema table path type selection).map Finding.nameless) :
    selectionFindings schema table path' parent other =
      (selectionFindings schema table path parent selection).map Finding.nameless := by
  rw [selectionFindings_eq, selectionFindings_eq, List.map_append, hs, ht]
  cases (selectionStep schema table parent selection).type? with
  | none => rfl
  | some type => rw [Option.elim, Option.elim, hi type]

/-- **Expanding spreads keeps the findings**, along whatever paths: on an
acyclic table the path of the document never meets a name again, and in the
expansion there is nothing left to follow. -/
theorem selectionsFindings_expands (hacyclic : table.Acyclic)
    {selections expanded : List Selection} (h : Expands table selections expanded)
    (path path' : List String) (parent : TypeDefinition) (ha : table.Ahead path selections) :
    selectionsFindings schema table path' parent expanded =
      (selectionsFindings schema table path parent selections).map Finding.nameless := by
  induction h generalizing path path' parent with
  | nil => simp [selectionsFindings]
  | leaf _ ih =>
    rw [selectionsFindings, selectionsFindings, List.map_append, ih path path' parent ha.tail]
    congr 1
    refine selectionFindings_of_step (map_nameless_fieldStep _).symm rfl ?_
    intro type
    simp [inside, bodyOf, FieldSelection.selections, selectionsFindings]
  | @field aliasName name arguments p q selections selections' _ _ hs _ ihs ih =>
    rw [selectionsFindings, selectionsFindings, List.map_append, ih path path' parent ha.tail]
    congr 1
    have hstep : fieldStep schema parent ⟨aliasName, name, arguments, some ⟨selections', q⟩, p⟩ =
        fieldStep schema parent ⟨aliasName, name, arguments, some ⟨selections, q⟩, p⟩ :=
      fieldStep_congr rfl rfl rfl hs.isEmpty_eq
    refine selectionFindings_of_step ?_ ?_ ?_
    · rw [selectionStep, selectionStep, hstep, map_nameless_fieldStep]
    · rw [selectionStep, selectionStep, hstep]
    · exact fun type => ihs path path' type ha.field
  | @inline condition p q selections selections' _ _ hs _ ihs ih =>
    rw [selectionsFindings, selectionsFindings, List.map_append, ih path path' parent ha.tail]
    congr 1
    have hi : ∀ type, inside schema table path' type (.inline ⟨condition, ⟨selections', q⟩, p⟩) =
        (inside schema table path type (.inline ⟨condition, ⟨selections, q⟩, p⟩)).map
          Finding.nameless :=
      fun type => ihs path path' type ha.inline
    cases condition with
    | none => exact selectionFindings_of_step rfl rfl hi
    | some condition =>
      have hstep := fragmentStep_none schema parent none condition.value p
      exact selectionFindings_of_step (congrArg Step.findings hstep) rfl hi
  | @undefined spread _ _ hf _ ih =>
    rw [selectionsFindings, selectionsFindings, List.map_append, ih path path' parent ha.tail]
    congr 1
    -- the spread stays, and it is undefined in the expansion too
    simp [selectionFindings_eq, selectionStep, hf, Finding.nameless]
  | @spread spread fragment selections' _ _ hf hs _ ihs ih =>
    rw [selectionsFindings, selectionsFindings, List.map_append, ih path path' parent ha.tail]
    congr 1
    have hstep := fragmentStep_none schema parent (some spread.name.value)
      fragment.typeCondition.value spread.pos
    refine selectionFindings_of_step ?_ ?_ ?_
    · simp only [selectionStep, hf]
      exact congrArg Step.findings hstep
    · simp only [selectionStep, hf]
      show (fragmentStep schema parent none fragment.typeCondition.value spread.pos).type? = _
      rw [hstep]
    · intro type
      -- the name is new on the path, so the walk goes on into the fragment
      have hp : spread.name.value ∉ path := ha.not_mem hacyclic
      simp only [inside, bodyOf, hf, hp, if_false]
      exact ihs (spread.name.value :: path) path' type (ha.spread hf)

/-! ## Documents -/

theorem operationFindings_expands (hacyclic : table.Acyclic) {operation expanded : Operation}
    (h : DefinitionExpands table (.operation operation) (.operation expanded)) :
    operationFindings schema table expanded =
      (operationFindings schema table operation).map Finding.nameless := by
  cases h with
  | @operation kind name variableDefinitions selections selections' p q hs =>
    simp only [operationFindings]
    cases schema.rootType? kind with
    | none => rfl
    | some root =>
      exact selectionsFindings_expands hacyclic hs [] [] root (FragmentTable.ahead_nil _)

/-- The findings of an expanded document are those of the document, without
the names of fragments. -/
theorem documentFindings_expands {document expanded : Document} (hacyclic : document.Acyclic)
    (h : document.Expands expanded) :
    documentFindings schema expanded =
      (documentFindings schema document).map Finding.nameless := by
  have all : ∀ {definitions expanded : List Definition},
      List.Forall₂ (DefinitionExpands (.ofDocument document)) definitions expanded →
      (expanded.filterMap Definition.operation?).flatMap
          (operationFindings schema (.ofDocument document)) =
        ((definitions.filterMap Definition.operation?).flatMap
          (operationFindings schema (.ofDocument document))).map Finding.nameless := by
    intro definitions expanded h
    induction h with
    | nil => rfl
    | cons hd _ ih =>
      cases hd with
      | fragment => exact ih
      | operation hs =>
        simp only [List.filterMap_cons, Definition.operation?, List.flatMap_cons, List.map_append,
          ih]
        rw [operationFindings_expands hacyclic (.operation hs)]
  rw [documentFindings, h.ofDocument_eq]
  exact all h

/-- The problems of a document in the order of the walk. -/
def documentProblems (schema : Schema) (document : Document) : List (Problem × Position) :=
  (documentFindings schema document).filterMap Finding.problem?

theorem diagnostics_eq (schema : Schema) (document : Document) :
    (schema.validate document).diagnostics = (documentProblems schema document).map
      fun found => .located found.1.message found.2 := by
  rw [documentProblems, List.map_filterMap]
  exact List.filterMap_congr fun finding _ => finding.diagnostic?_eq

theorem documentProblems_expands {document expanded : Document} (hacyclic : document.Acyclic)
    (h : document.Expands expanded) :
    documentProblems schema expanded = (documentProblems schema document).map
      fun found => (found.1.nameless, found.2) := by
  rw [documentProblems, documentFindings_expands hacyclic h, List.filterMap_map,
    documentProblems, List.map_filterMap]
  exact List.filterMap_congr fun finding _ => finding.problem?_nameless

end Validation

open Validation

/-- **Spreads mean their expansions**: an acyclic document has an expansion,
and validation reports of every expansion the problems of the document, in the
same order and at the same places, but without the names of fragments. -/
theorem Document.Acyclic.diagnostics_expands {document : Document} (hacyclic : document.Acyclic)
    (schema : Schema) :
    (∃ expanded, document.Expands expanded) ∧
    ∀ expanded, document.Expands expanded →
      (schema.validate document).diagnostics = (documentProblems schema document).map
          (fun found => .located found.1.message found.2) ∧
        (schema.validate expanded).diagnostics = (documentProblems schema document).map
          (fun found => .located found.1.nameless.message found.2) := by
  refine ⟨exists_documentExpands hacyclic, ?_⟩
  intro expanded h
  refine ⟨diagnostics_eq schema document, ?_⟩
  rw [diagnostics_eq, documentProblems_expands hacyclic h, List.map_map]
  rfl

/-- A fragment that spreads another one, and a name that no fragment has. -/
def outerFragment : FragmentDefinition :=
  .ofList "Outer" "Query" [.spread (.named "Inner"), .spread (.named "Missing")]

/-- A fragment without spreads. -/
def innerFragment : FragmentDefinition := .ofList "Inner" "Dog" [.field (.named "barks")]

/-- A query that spreads a fragment in a fragment. -/
def nestedSpreads : Document :=
  ⟨[.operation (.ofList .query [.spread (.named "Outer")]), .fragment outerFragment,
    .fragment innerFragment]⟩

/-- The same query with inline fragments. -/
def nestedInline : Document :=
  ⟨[.operation (.ofList .query [.inline (.ofList (some "Query")
      [.inline (.ofList (some "Dog") [.field (.named "barks")]), .spread (.named "Missing")])]),
    .fragment outerFragment, .fragment innerFragment]⟩

theorem nestedSpreads_acyclic : nestedSpreads.Acyclic := by
  apply FragmentTable.acyclic_of_rank fun name =>
    if name = "Outer" then 2 else if name = "Inner" then 1 else 0
  rintro name other ⟨fragment, hf, spread, hs, rfl⟩
  have hm : fragment ∈ [outerFragment, innerFragment] := List.mem_of_find?_eq_some hf
  rw [List.mem_pair] at hm
  have hn := FragmentTable.name_of_get? hf
  subst hn
  rcases hm with rfl | rfl
  · have hs : spread = .named "Inner" ∨ spread = .named "Missing" := by
      simpa [outerFragment, FragmentDefinition.ofList, FragmentDefinition.selections,
        SelectionSet.ofList, Selection.spreadsOfList] using hs
    rcases hs with rfl | rfl <;> decide
  · simp [innerFragment, FragmentDefinition.ofList, FragmentDefinition.selections,
      SelectionSet.ofList, Selection.spreadsOfList, FieldSelection.named,
      FieldSelection.selections] at hs

theorem nestedSpreads_expands : nestedSpreads.Expands nestedInline := by
  have ho : (FragmentTable.ofDocument nestedSpreads).get? "Outer" = some outerFragment := rfl
  have hi : (FragmentTable.ofDocument nestedSpreads).get? "Inner" = some innerFragment := rfl
  have inner : Expands (.ofDocument nestedSpreads) innerFragment.selections
      innerFragment.selections := .leaf .nil
  have missing := @Expands.undefined (.ofDocument nestedSpreads) (.named "Missing") _ _ rfl .nil
  have outer := @Expands.spread _ (.named "Inner") _ _ _ _ hi inner missing
  have query := @Expands.spread _ (.named "Outer") _ _ _ _ ho outer .nil
  exact .cons (.operation query) (.cons (.fragment _) (.cons (.fragment _) .nil))

/-- A schema where nothing is both of the types that the fragments are on. -/
def kennel : Schema :=
  ((Schema.empty.withType (.object (.named "Query"))).withType (.object
    ((ObjectType.named "Dog").withField (.ofType "barks" (.named "Boolean"))))).withBuiltins

/-- The inner fragment never applies; its inline form is reported without its name. -/
theorem diagnostics_expands_nestedSpreads :
    nestedSpreads.Acyclic ∧ nestedSpreads.Expands nestedInline ∧
      (kennel.validate nestedSpreads).diagnostics =
        [.located (Problem.impossibleSpread (some "Inner") "Query" "Dog").message .unknown] ∧
      (kennel.validate nestedInline).diagnostics =
        [.located (Problem.impossibleSpread none "Query" "Dog").message .unknown] := by
  have found : documentProblems kennel nestedSpreads =
      [(.impossibleSpread (some "Inner") "Query" "Dog", .unknown)] := by cbv
  obtain ⟨spread, inline⟩ :=
    (nestedSpreads_acyclic.diagnostics_expands kennel).2 _ nestedSpreads_expands
  rw [found] at spread inline
  exact ⟨nestedSpreads_acyclic, nestedSpreads_expands, spread, inline⟩

end GraphQL
