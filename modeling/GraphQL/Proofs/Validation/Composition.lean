import GraphQL.Proofs.Validation.Fixpoint

/-!
# Validation — a document by its parts

The operations of a document share its fragments and the decision whether the
document is widened, and nothing else. Main statement: the diagnostics of a
document are those of its operations one by one, the diagnostics of an
operation are those of its selections one by one, and where the fragment
definitions stand does not matter, as long as definitions of one name stay in
their order (`Moved`).
-/

namespace GraphQL

/-- The operation as the only one beside the fragment definitions of the document. -/
def Document.alone (document : Document) (operation : Operation) : Document :=
  ⟨.operation operation :: document.fragments.map .fragment⟩

/-- The operation with other selections. -/
def Operation.selecting (operation : Operation) (selections : List Selection) : Operation :=
  { operation with selectionSet := { operation.selectionSet with selections := selections } }

/-- Fragment definitions were moved: the operations are still in their order,
and so are the fragment definitions of every name. -/
structure Document.Moved (document moved : Document) : Prop where
  operations : moved.operations = document.operations
  fragments : ∀ name,
    moved.fragments.filter (fun fragment => fragment.name.value == name) =
      document.fragments.filter fun fragment => fragment.name.value == name

namespace Document

variable {document moved : Document}

@[simp] theorem operations_alone (document : Document) (operation : Operation) :
    (document.alone operation).operations = [operation] := by
  simp [alone, operations, Function.comp_def, Definition.operation?]

@[simp] theorem fragments_alone (document : Document) (operation : Operation) :
    (document.alone operation).fragments = document.fragments := by
  simp [alone, fragments, List.filterMap_cons, Function.comp_def, Definition.fragment?]

@[simp] theorem ofDocument_alone (document : Document) (operation : Operation) :
    FragmentTable.ofDocument (document.alone operation) = .ofDocument document :=
  congrArg FragmentTable.mk (document.fragments_alone operation)

/-- A fragment definition may change places with the definition behind it, unless
that one is a fragment definition of the same name. -/
theorem moved_swap (before after : List Definition) {fragment : FragmentDefinition}
    {definition : Definition}
    (h : ∀ other, definition = .fragment other → other.name.value ≠ fragment.name.value) :
    Moved ⟨before ++ .fragment fragment :: definition :: after⟩
      ⟨before ++ definition :: .fragment fragment :: after⟩ := by
  cases definition with
  | operation operation =>
    refine ⟨?_, fun name => ?_⟩
    · simp [operations, List.filterMap_cons, Definition.operation?]
    · simp [fragments, List.filterMap_cons, Definition.fragment?]
  | fragment other =>
    refine ⟨?_, fun name => ?_⟩
    · simp [operations, List.filterMap_cons, Definition.operation?]
    · have hne := h other rfl
      -- at most one of the two has the name
      by_cases hf : fragment.name.value = name
      · have ho : other.name.value ≠ name := fun ho => hne (ho.trans hf.symm)
        simp [fragments, Definition.fragment?, List.filter_cons, ho]
      · simp [fragments, Definition.fragment?, List.filter_cons, hf]

/-- The first definition of a name is still the first one. -/
theorem Moved.get?_eq (h : document.Moved moved) (name : String) :
    (FragmentTable.ofDocument moved).get? name = (FragmentTable.ofDocument document).get? name := by
  rw [FragmentTable.get?, FragmentTable.get?, ← List.head?_filter, ← List.head?_filter]
  exact congrArg List.head? (h.fragments name)

end Document

namespace Validation

variable {schema : Schema} {document moved : Document}

/-! ## The walk asks a table for definitions only -/

section Tables

variable {table other : FragmentTable}

theorem selectionStep_congr (h : ∀ name, other.get? name = table.get? name)
    (parent : TypeDefinition) (selection : Selection) :
    selectionStep schema other parent selection = selectionStep schema table parent selection := by
  cases selection with
  | spread spread => rw [selectionStep, selectionStep, h]
  | _ => rfl

theorem bodyOf_congr (h : ∀ name, other.get? name = table.get? name) (selection : Selection) :
    bodyOf other selection = bodyOf table selection := by
  cases selection with
  | spread spread => rw [bodyOf, bodyOf, h]
  | _ => rfl

/-- **Tables with the same definitions under all names have the same findings**,
by the recursion of the walk. -/
theorem selectionsFindings_congr (h : ∀ name, other.get? name = table.get? name)
    (path : List String) (parent : TypeDefinition) (selections : List Selection) :
    selectionsFindings schema other path parent selections =
      selectionsFindings schema table path parent selections := by
  match selections with
  | [] => simp [selectionsFindings]
  | selection :: rest =>
    have hrest := selectionsFindings_congr h path parent rest
    have hinside : ∀ type, inside schema other path type selection =
        inside schema table path type selection := by
      intro type
      cases selection with
      | field field =>
        have := field.sizeOf_selections_lt
        exact selectionsFindings_congr h path type field.selections
      | inline fragment =>
        have := fragment.sizeOf_selections_lt
        exact selectionsFindings_congr h path type fragment.selections
      | spread spread =>
        rw [inside, inside, bodyOf_congr h]
        by_cases hp : spread.name.value ∈ path
        · rw [if_pos hp, if_pos hp]
        · rw [if_neg hp, if_neg hp]
          cases hf : table.get? spread.name.value with
          | none => simp [bodyOf, hf, selectionsFindings]
          | some fragment =>
            -- the name goes on the path, so one fragment less is unvisited
            have := FragmentTable.unvisited_cons_lt hf hp
            rw [bodyOf_of_spread rfl hf]
            exact selectionsFindings_congr h (spread.name.value :: path) type fragment.selections
    rw [selectionsFindings, selectionsFindings, hrest, selectionFindings_eq, selectionFindings_eq,
      selectionStep_congr h]
    cases (selectionStep schema table parent selection).type? with
    | none => rfl
    | some type => rw [Option.elim, Option.elim, hinside type]
termination_by (table.unvisited path, sizeOf selections)

theorem operationFindings_congr (h : ∀ name, other.get? name = table.get? name)
    (operation : Operation) :
    operationFindings schema other operation = operationFindings schema table operation := by
  rw [operationFindings, operationFindings]
  cases schema.rootType? operation.kind with
  | none => rfl
  | some root => exact selectionsFindings_congr h [] root operation.selections

end Tables

theorem documentFindings_moved (schema : Schema) (h : document.Moved moved) :
    documentFindings schema moved = documentFindings schema document := by
  rw [documentFindings, documentFindings, h.operations]
  exact List.flatMap_congr fun operation _ => operationFindings_congr h.get?_eq operation

/-! ## Operations and selections one by one -/

theorem documentFindings_alone (document : Document) (operation : Operation) :
    documentFindings schema (document.alone operation) =
      operationFindings schema (.ofDocument document) operation := by
  rw [documentFindings, Document.operations_alone, Document.ofDocument_alone,
    List.flatMap_singleton]

theorem operationFindings_append {table : FragmentTable} {operation : Operation}
    {root : TypeDefinition} (hr : schema.rootType? operation.kind = some root)
    (xs ys : List Selection) :
    operationFindings schema table (operation.selecting (xs ++ ys)) =
      operationFindings schema table (operation.selecting xs) ++
        operationFindings schema table (operation.selecting ys) := by
  have root : ∀ selections, operationFindings schema table (operation.selecting selections) =
      selectionsFindings schema table [] root selections := by
    intro selections
    have kind : (operation.selecting selections).kind = operation.kind := rfl
    rw [operationFindings, kind, hr]
    rfl
  rw [root, root, root, selectionsFindings_eq, selectionsFindings_eq, selectionsFindings_eq,
    List.flatMap_append]

/-! ## What is left of the definitions -/

/-- What validation makes of every definition of a document: it leaves it as it is, or
it widens it. -/
def rewriting (schema : Schema) (document : Document) : Definition → Definition :=
  if (documentFindings schema document).any Finding.isCoercion then widenDefinition schema else id

theorem normalize_eq_map (schema : Schema) (document : Document) :
    schema.normalize document = ⟨document.definitions.map (rewriting schema document)⟩ := by
  rw [rewriting, ← isSome_widened?]
  cases hc : (schema.validate document).widened?.isSome with
  | false =>
    rw [normalize_eq_self hc, if_neg Bool.false_ne_true, List.map_id]
  | true =>
    rw [normalize_eq_widenDocument hc, if_pos rfl]
    rfl

theorem rewriting_moved (h : document.Moved moved) :
    rewriting schema moved = rewriting schema document := by
  rw [rewriting, rewriting, documentFindings_moved schema h]

theorem moved_widenDocument (h : document.Moved moved) :
    (widenDocument schema document).Moved (widenDocument schema moved) where
  operations := by rw [operations_widenDocument, operations_widenDocument, h.operations]
  fragments name := by
    have own : ((fun fragment : FragmentDefinition => fragment.name.value == name) ∘
        widenFragment schema) = fun fragment => fragment.name.value == name := rfl
    rw [fragments_widenDocument, fragments_widenDocument, List.filter_map, List.filter_map, own,
      h.fragments]

theorem moved_normalize (h : document.Moved moved) :
    (schema.normalize document).Moved (schema.normalize moved) := by
  rw [normalize_eq_map, normalize_eq_map, rewriting_moved h, rewriting]
  split
  · exact moved_widenDocument h
  · rwa [List.map_id, List.map_id]

/-- **Validation is compositional.** The diagnostics of a document are those of its
operations, each alone beside the fragment definitions; where the root type exists, a
list of root selections has the diagnostics of its first part and then those of its
second part; and moving fragment definitions, those of one name in their order, changes
neither the diagnostics nor what becomes of any definition. -/
theorem diagnostics_by_parts (schema : Schema) (document : Document) :
    (schema.validate document).diagnostics =
        document.operations.flatMap (fun operation =>
          (schema.validate (document.alone operation)).diagnostics) ∧
      (∀ (operation : Operation) (root : TypeDefinition) (xs ys : List Selection),
        schema.rootType? operation.kind = some root →
        (schema.validate (document.alone (operation.selecting (xs ++ ys)))).diagnostics =
          (schema.validate (document.alone (operation.selecting xs))).diagnostics ++
            (schema.validate (document.alone (operation.selecting ys))).diagnostics) ∧
      ∀ moved, document.Moved moved →
        (schema.validate moved).diagnostics = (schema.validate document).diagnostics ∧
          (schema.normalize document).Moved (schema.normalize moved) ∧
          ∃ rewrite : Definition → Definition,
            schema.normalize document = ⟨document.definitions.map rewrite⟩ ∧
              schema.normalize moved = ⟨moved.definitions.map rewrite⟩ := by
  refine ⟨?_, ?_, ?_⟩
  · simp only [Schema.validate, documentFindings_alone]
    rw [documentFindings, List.filterMap_flatMap]
  · intro operation root xs ys hr
    simp only [Schema.validate, documentFindings_alone]
    rw [operationFindings_append hr, List.filterMap_append]
  · intro moved h
    have same := documentFindings_moved schema h
    refine ⟨?_, moved_normalize h, ?_⟩
    · simp only [Schema.validate, same]
    · refine ⟨rewriting schema document, normalize_eq_map schema document, ?_⟩
      rw [normalize_eq_map, rewriting_moved h]

/-- A fragment with an integer for a float. -/
def scalingFragment : FragmentDefinition :=
  .ofList "Scaling" "Query"
    [.field ((FieldSelection.named "scaled").withArgument "by" (.int 2 .unknown))]

/-- A second fragment of that name, which never counts. -/
def shadowedFragment : FragmentDefinition := .ofList "Scaling" "Query" []

/-- A query that spreads the fragment and asks for a field that does not exist. -/
def scalingQuery : Operation :=
  .ofList .query [.spread (.named "Scaling"), .field (.named "missing")]

/-- The fragments on both sides of the query, and a mutation, which has no root type. -/
def scalingDocument : Document :=
  ⟨[.fragment scalingFragment, .operation scalingQuery, .fragment shadowedFragment,
    .operation (.ofList .mutation [])]⟩

/-- The same with the first fragment behind the query. -/
def movedDocument : Document :=
  ⟨[.operation scalingQuery, .fragment scalingFragment, .fragment shadowedFragment,
    .operation (.ofList .mutation [])]⟩

/-- The problems of the query stand before that of the mutation, wherever the
fragments stand, and each of its two selections has its own. -/
theorem scalingDocument_by_parts :
    (∃ root, scaledSchema.rootType? scalingQuery.kind = some root) ∧
      scalingDocument.Moved movedDocument ∧
      (scaledSchema.validate movedDocument).diagnostics =
        (scaledSchema.validate scalingDocument).diagnostics ∧
      (scaledSchema.validate scalingDocument).diagnostics =
        (scaledSchema.validate (scalingDocument.alone
          (scalingQuery.selecting [.spread (.named "Scaling")]))).diagnostics ++
        (scaledSchema.validate (scalingDocument.alone
          (scalingQuery.selecting [.field (.named "missing")]))).diagnostics ++
        (scaledSchema.validate (scalingDocument.alone (.ofList .mutation []))).diagnostics ∧
      (scaledSchema.normalize scalingDocument).Moved (scaledSchema.normalize movedDocument) := by
  have root : ∃ root, scaledSchema.rootType? scalingQuery.kind = some root := ⟨_, rfl⟩
  have moved : scalingDocument.Moved movedDocument := Document.moved_swap [] _ (by simp)
  obtain ⟨operations, selections, definitions⟩ := diagnostics_by_parts scaledSchema scalingDocument
  obtain ⟨same, normal, -⟩ := definitions movedDocument moved
  refine ⟨root, moved, same, ?_, normal⟩
  obtain ⟨type, hr⟩ := root
  have split := selections scalingQuery type [.spread (.named "Scaling")]
    [.field (.named "missing")] hr
  have both : scalingDocument.operations = [scalingQuery, .ofList .mutation []] := rfl
  rw [← split, operations, both, List.flatMap_cons, List.flatMap_singleton]
  rfl

end Validation

end GraphQL
