import GraphQL.Proofs.Document.Widened
import GraphQL.Proofs.Validation.Fixpoint

/-!
# Validation — exactly what widening changes

Widening is the rewriting of a document at the places where its definition
declares a float, and nothing else: integers there become floats, and all other
nodes, positions and orders are as they were. The argument goes down the
document beside the declared types, literal by literal and selection by
selection (`FloatAt` is the choice of places in some selections).
-/

namespace GraphQL

/-! ## Literals -/

/-- Where no path is chosen, nothing changes. -/
theorem Literal.widenedWhere_eq_self {chosen : List Nat → Bool} (h : ∀ path, chosen path = false)
    (literal : Literal) : literal.widenedWhere chosen = literal := by
  cases literal with
  | int n p => simp [Literal.widenedWhere, h]
  | list items p =>
    rw [Literal.widenedWhere]
    congr 1
    refine List.ext_getElem? fun i => ?_
    rw [Literal.getElem?_widenedItems]
    cases hi : items[i]? with
    | none => rfl
    | some item =>
      have := List.sizeOf_lt_of_mem (List.mem_of_getElem? hi)
      exact congrArg some (item.widenedWhere_eq_self fun path => h _)
  | _ => rfl
termination_by sizeOf literal

/-- A list literal itself is never rewritten, only what is in it. -/
theorem Literal.widenedWhere_list_eq_self {chosen : List Nat → Bool}
    (h : ∀ i path, chosen (i :: path) = false) (items : List Literal) (p : Position) :
    (Literal.list items p).widenedWhere chosen = .list items p := by
  rw [Literal.widenedWhere]
  congr 1
  refine List.ext_getElem? fun i => ?_
  rw [Literal.getElem?_widenedItems]
  cases items[i]? with
  | none => rfl
  | some item => exact congrArg some (item.widenedWhere_eq_self fun path => h _ path)

namespace Validation

/-- Against a type, the integers that stand against `Float` are rewritten. -/
theorem widenLiteral_eq_widenedWhere {type : TypeRef} {literal : Literal}
    {chosen : List Nat → Bool}
    (h : ∀ path, chosen path = true ↔ ∃ leaf, Leaf type literal path "Float" leaf) :
    widenLiteral type literal = literal.widenedWhere chosen := by
  induction type generalizing literal chosen with
  | named name =>
    have below : ∀ i path, chosen (i :: path) = false := by
      intro i path
      rw [← Bool.not_eq_true, h]
      rintro ⟨leaf, hl⟩
      cases hl
    by_cases hn : name = "Float"
    · subst hn
      have here : chosen [] = true := (h []).2 ⟨literal, .named "Float" literal⟩
      cases literal with
      | int n p => simp [widenLiteral, Literal.widenedWhere, here, Literal.widened, Literal.toFloat?]
      | list items p => rw [Literal.widenedWhere_list_eq_self below]; rfl
      | _ => rfl
    · have none : ∀ path, chosen path = false := by
        intro path
        rw [← Bool.not_eq_true, h]
        rintro ⟨leaf, hl⟩
        cases hl
        exact hn rfl
      rw [Literal.widenedWhere_eq_self none, widenLiteral, if_neg hn]
  | nonNull inner ih =>
    refine ih fun path => (h path).trans (exists_congr fun leaf => ⟨?_, .nonNull⟩)
    rintro ⟨⟩
    assumption
  | list item ih =>
    by_cases hs : ∀ items p, literal ≠ .list items p
    · rw [widenLiteral_single item hs]
      refine ih fun path => (h path).trans (exists_congr fun leaf => ⟨fun hl => ?_, .single hs⟩)
      cases hl with
      | item => exact absurd rfl (hs _ _)
      | single _ hl => exact hl
    · obtain ⟨items, p, rfl⟩ : ∃ items p, literal = .list items p := by simpa using hs
      rw [widenLiteral, Literal.widenedWhere]
      congr 1
      refine List.ext_getElem? fun i => ?_
      rw [Literal.getElem?_widenedItems, List.getElem?_map, Nat.zero_add]
      cases hi : items[i]? with
      | none => rfl
      | some literal =>
        -- the item at an index is rewritten at the paths that begin with the index
        refine congrArg some (ih fun path => (h (i :: path)).trans (exists_congr fun leaf => ?_))
        constructor
        · intro hl
          cases hl with
          | item hi' hl =>
            cases hi.symm.trans hi'
            exact hl
          | single hs => exact absurd rfl (hs items p)
        · exact .item hi

/-! ## Selections -/

variable {schema : Schema}

/-- In selections made on a type, the typing by declared fields and conditions
has a float at a place. -/
def FloatAt (schema : Schema) (type? : Option TypeDefinition) (selections : List Selection)
    (enclosing : List Nat) (i j : Nat) (items : List Nat) : Prop :=
  ∃ parent inner selection argument input leaf,
    declaredAt? schema type? selections enclosing = some parent ∧
    Selection.listAt? selections enclosing = some inner ∧ inner[i]? = some selection ∧
    selection.argument? j = some argument ∧
    selectionInput? parent selection argument = some input ∧
    Leaf input.type argument.value items "Float" leaf

/-- The places inside a selection are those of what it encloses, on its declared type. -/
theorem floatAt_cons_iff {type? : Option TypeDefinition} {selections : List Selection} {i : Nat}
    {selection : Selection} (hi : selections[i]? = some selection) (enclosing : List Nat)
    (k j : Nat) (items : List Nat) :
    FloatAt schema type? selections (i :: enclosing) k j items ↔
      FloatAt schema (type?.bind fun type => declaredType? schema type selection)
        selection.enclosed enclosing k j items := by
  simp only [FloatAt, declaredAt?, Selection.listAt?_cons, hi, Option.bind_some]

/-- The places of the selections themselves are those of declared arguments. -/
theorem floatAt_nil_iff {type? : Option TypeDefinition} {selections : List Selection} {i j : Nat}
    {selection : Selection} {argument : Argument} (hi : selections[i]? = some selection)
    (ha : selection.argument? j = some argument) (items : List Nat) :
    FloatAt schema type? selections [] i j items ↔
      ∃ input, (type?.bind fun type => selectionInput? type selection argument) = some input ∧
        ∃ leaf, Leaf input.type argument.value items "Float" leaf := by
  simp only [FloatAt, declaredAt?, Selection.listAt?_nil, Option.bind_eq_some_iff]
  constructor
  · rintro ⟨parent, inner, selection', argument', input, leaf, ht, hs, hi', ha', hin, hl⟩
    cases hs
    cases hi.symm.trans hi'
    cases ha.symm.trans ha'
    exact ⟨input, ⟨parent, ht, hin⟩, leaf, hl⟩
  · rintro ⟨input, ⟨parent, ht, hin⟩, leaf, hl⟩
    exact ⟨parent, _, selection, argument, input, leaf, ht, rfl, hi, ha, hin, hl⟩

theorem widenAs_eq_widenedWhere {input? : Option InputValue} {argument : Argument}
    {chosen : List Nat → Bool}
    (h : ∀ items, chosen items = true ↔
      ∃ input, input? = some input ∧ ∃ leaf, Leaf input.type argument.value items "Float" leaf) :
    widenAs input? argument = argument.widenedWhere chosen := by
  unfold widenAs Argument.widenedWhere
  congr 1
  cases input? with
  | none => exact (argument.value.widenedWhere_eq_self (by simpa using h)).symm
  | some input => exact widenLiteral_eq_widenedWhere (by simpa using h)

/-- A field widened on a type that may be missing, part by part. -/
theorem widenSelectionOn_field (type? : Option TypeDefinition) (field : FieldSelection) :
    widenSelectionOn schema type? (.field field) = .field { field with
      arguments := field.arguments.map fun argument =>
        widenAs (type?.bind fun type => selectionInput? type (.field field) argument) argument
      selectionSet := field.selectionSet.map
        (widenSet schema (type?.bind fun type => declaredType? schema type (.field field))) } := by
  cases type? with
  | none =>
    obtain ⟨aliasName, name, arguments, set, p⟩ := field
    have alone : arguments.map (widenAs none) = arguments := List.map_id' arguments
    cases set <;> simp [widenSelectionOn, alone, widenSet]
  | some type =>
    rw [widenSelectionOn, Option.elim, widenSelection_field]
    simp only [Option.bind_some, selectionInput?]
    cases type.field? field.name.value with
    | none => simp [widenAs]
    | some definition =>
      simp only [Option.elim, Option.bind_some]
      congr 2
      refine List.map_congr_left fun argument _ => ?_
      simp only [widenArgument, widenAs]
      cases definition.arguments.get? argument.name.value <;> rfl

theorem widenSelectionOn_inline (type? : Option TypeDefinition) (fragment : InlineFragment) :
    widenSelectionOn schema type? (.inline fragment) = .inline { fragment with
      selectionSet := widenSet schema
        (type?.bind fun type => declaredType? schema type (.inline fragment))
        fragment.selectionSet } := by
  cases type? with
  | none => obtain ⟨condition, set, p⟩ := fragment; rfl
  | some type => exact widenSelection_inline type fragment

theorem widenSet_eq_widenedWhere {type? : Option TypeDefinition} {set : SelectionSet}
    {chosen : List Nat → Nat → Nat → List Nat → Bool}
    (h : widenOn schema type? set.selections =
      Selection.listWidenedWhere chosen 0 set.selections) :
    widenSet schema type? set = set.widenedWhere chosen := by
  obtain ⟨selections, p⟩ := set
  rw [SelectionSet.widenedWhere, ← h, ← selections_widenSet]
  cases type? <;> rfl

/-- Selections widened on a type are rewritten where the typing has floats. -/
theorem widenOn_eq_listWidenedWhere (type? : Option TypeDefinition) (selections : List Selection)
    {chosen : List Nat → Nat → Nat → List Nat → Bool}
    (h : ∀ enclosing i j items, chosen enclosing i j items = true ↔
      FloatAt schema type? selections enclosing i j items) :
    widenOn schema type? selections = Selection.listWidenedWhere chosen 0 selections := by
  refine List.ext_getElem? fun i => ?_
  rw [getElem?_widenOn, Selection.getElem?_listWidenedWhere, Nat.zero_add]
  cases hi : selections[i]? with
  | none => rfl
  | some selection =>
    refine congrArg some ?_
    have := List.sizeOf_lt_of_mem (List.mem_of_getElem? hi)
    have := selection.sizeOf_enclosed_lt
    have inner : widenOn schema (type?.bind fun type => declaredType? schema type selection)
        selection.enclosed =
          Selection.listWidenedWhere (fun path => chosen (i :: path)) 0 selection.enclosed :=
      widenOn_eq_listWidenedWhere _ selection.enclosed fun enclosing k j items =>
        (h _ k j items).trans (floatAt_cons_iff hi enclosing k j items)
    show widenSelectionOn schema type? selection = _
    cases selection with
    | spread spread => rw [widenSelectionOn_spread, Selection.widenedWhere_spread]
    | inline fragment =>
      rw [widenSelectionOn_inline, Selection.widenedWhere_inline, widenSet_eq_widenedWhere inner]
    | field field =>
      rw [widenSelectionOn_field, Selection.widenedWhere_field]
      congr 2
      · refine List.ext_getElem? fun j => ?_
        rw [List.getElem?_map, List.getElem?_mapIdx]
        cases ha : field.arguments[j]? with
        | none => rfl
        | some argument =>
          exact congrArg some (widenAs_eq_widenedWhere fun items =>
            (h [] i j items).trans (floatAt_nil_iff hi ha items))
      · cases hs : field.selectionSet with
        | none => rfl
        | some set =>
          rw [Selection.enclosed, FieldSelection.selections, hs] at inner
          exact congrArg some (widenSet_eq_widenedWhere inner)
termination_by sizeOf selections

/-! ## Documents -/

variable {document : Document}

/-- The places of a definition where floats are declared are those of its
selections on its type. -/
theorem floatDeclared_iff {d : Nat} {definition : Definition}
    (hd : document.definitions[d]? = some definition) (enclosing : List Nat) (i j : Nat)
    (items : List Nat) :
    FloatDeclared schema document ⟨d, enclosing, i, j, items⟩ ↔
      FloatAt schema (definitionType? schema definition) definition.selections enclosing i j
        items := by
  simp only [FloatDeclared, FloatAt, declaredInput?, declaredParent?, Document.argumentAt?,
    Document.selectionAt?, Document.selectionsAt?, hd, Option.bind_some, Option.bind_eq_some_iff]
  constructor
  · rintro ⟨argument, input, leaf, ⟨selection, ⟨inner, hl, hi⟩, ha⟩,
      ⟨parent, hp, selection', ⟨inner', hl', hi'⟩, argument', ⟨selection'', ⟨inner'', hl'', hi''⟩,
        ha''⟩, hin⟩, hf⟩
    cases hl.symm.trans hl'
    cases hl.symm.trans hl''
    cases hi.symm.trans hi'
    cases hi.symm.trans hi''
    cases ha.symm.trans ha''
    exact ⟨parent, inner, selection, argument, input, leaf, hp, hl, hi, ha, hin, hf⟩
  · rintro ⟨parent, inner, selection, argument, input, leaf, hp, hl, hi, ha, hin, hf⟩
    exact ⟨argument, input, leaf, ⟨selection, ⟨inner, hl, hi⟩, ha⟩,
      ⟨parent, hp, selection, ⟨inner, hl, hi⟩, argument, ⟨selection, ⟨inner, hl, hi⟩, ha⟩, hin⟩,
      hf⟩

theorem widenDefinition_eq_widenedWhere {definition : Definition}
    {chosen : List Nat → Nat → Nat → List Nat → Bool}
    (h : ∀ enclosing i j items, chosen enclosing i j items = true ↔
      FloatAt schema (definitionType? schema definition) definition.selections enclosing i j
        items) :
    widenDefinition schema definition = definition.widenedWhere chosen := by
  have inner := widenOn_eq_listWidenedWhere _ _ h
  cases definition with
  | operation operation =>
    exact congrArg (fun set => Definition.operation { operation with selectionSet := set })
      (widenSet_eq_widenedWhere inner)
  | fragment fragment =>
    exact congrArg (fun set => Definition.fragment { fragment with selectionSet := set })
      (widenSet_eq_widenedWhere inner)

/-- **Exactly what widening changes.** The widened document is the document with
the integers at the places where a float is declared as floats of the same value
at the same position, and with everything else as it was. So an integer at a
place changes exactly if a float is declared there, and to widen twice is to
widen once. -/
theorem widenDocument_exact (schema : Schema) (document : Document)
    [DecidablePred (FloatDeclared schema document)] :
    widenDocument schema document =
        document.widenedWhere (fun place => decide (FloatDeclared schema document place)) ∧
      (∀ place n p, document.literalAt? place = some (.int n p) →
        (widenDocument schema document).literalAt? place =
          some (if FloatDeclared schema document place then .float (Float.ofInt n.toInt) p
            else .int n p)) ∧
      widenDocument schema (widenDocument schema document) = widenDocument schema document := by
  refine ⟨?_, ?_, widenDocument_widenDocument document⟩
  · rw [widenDocument, Document.widenedWhere]
    congr 1
    refine List.ext_getElem? fun d => ?_
    rw [List.getElem?_map, List.getElem?_mapIdx]
    cases hd : document.definitions[d]? with
    | none => rfl
    | some definition =>
      refine congrArg some (widenDefinition_eq_widenedWhere fun enclosing i j items => ?_)
      rw [decide_eq_true_iff]
      exact floatDeclared_iff hd enclosing i j items
  · intro place n p hl
    split
    · exact literalAt?_widenDocument_of_declared hl ‹_›
    · exact literalAt?_widenDocument_of_not_declared hl ‹_›

/-- A query with an integer for a float, and with one for an argument that the
field does not declare. -/
def scaledAside : Document :=
  ⟨[.operation (.ofList .query
    [.field (((FieldSelection.named "scaled").withArgument "by" (.int 2 .unknown)).withArgument
      "aside" (.int 3 .unknown))])]⟩

/-- The one becomes a float, the other stays. -/
theorem scaledAside_widened_exactly :
    scaledAside.literalAt? ⟨0, [], 0, 0, []⟩ = some (.int 2 .unknown) ∧
      scaledAside.literalAt? ⟨0, [], 0, 1, []⟩ = some (.int 3 .unknown) ∧
      (widenDocument scaledSchema scaledAside).literalAt? ⟨0, [], 0, 0, []⟩ =
        some (.float (Float.ofInt (Int64.toInt 2)) .unknown) ∧
      (widenDocument scaledSchema scaledAside).literalAt? ⟨0, [], 0, 1, []⟩ =
        some (.int 3 .unknown) := by
  classical
  have widened := (widenDocument_exact scaledSchema scaledAside).2.1
  have declared : FloatDeclared scaledSchema scaledAside ⟨0, [], 0, 0, []⟩ :=
    ⟨_, _, _, rfl, rfl, .named "Float" (.int 2 .unknown)⟩
  have undeclared : ¬ FloatDeclared scaledSchema scaledAside ⟨0, [], 0, 1, []⟩ := by
    rintro ⟨_, input, _, -, hi, -⟩
    have none : declaredInput? scaledSchema scaledAside ⟨0, [], 0, 1, []⟩ = none := rfl
    cases none.symm.trans hi
  refine ⟨rfl, rfl, ?_, ?_⟩
  · rw [widened ⟨0, [], 0, 0, []⟩ 2 .unknown rfl, if_pos declared]
  · rw [widened ⟨0, [], 0, 1, []⟩ 3 .unknown rfl, if_neg undeclared]

end Validation

end GraphQL
