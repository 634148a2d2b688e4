import GraphQL.Document.Decoding
import GraphQL.Document.Encoding
import GraphQL.Proofs.Json.Shape

/-!
# Documents — encoding and decoding

What a document is encoded as decodes to the document, positions and orders
included, if every float in it is finite: a float that is not is written as a
null. For every node there is a lemma that says what an object with the node's
fields decodes to once the fields do (`ofJson?_object`), and one that says that
the node's encoding decodes to it.
-/

namespace GraphQL

open Json

/-! ## The floats in a document -/

mutual

/-- The floats in a literal. -/
def Literal.floats : Literal → List Float
  | .float x _ => [x]
  | .list items _ => Literal.floatsOfItems items
  | .object fields _ => Literal.floatsOfFields fields
  | _ => []

/-- The floats in the items of a list. -/
def Literal.floatsOfItems : List Literal → List Float
  | [] => []
  | item :: items => item.floats ++ Literal.floatsOfItems items

/-- The floats in the fields of an object. -/
def Literal.floatsOfFields : List (Name × Literal) → List Float
  | [] => []
  | (_, value) :: fields => value.floats ++ Literal.floatsOfFields fields

end

mutual

/-- The floats in a selection. -/
def Selection.floats : Selection → List Float
  | .field field => field.floats
  | .spread _ => []
  | .inline fragment => fragment.floats

/-- The floats in a field: those of its arguments and those below it. -/
def FieldSelection.floats : FieldSelection → List Float
  | ⟨_, _, arguments, set, _⟩ =>
    (arguments.flatMap fun argument => argument.value.floats) ++ SelectionSet.floatsOfOption set

/-- The floats in an inline fragment. -/
def InlineFragment.floats : InlineFragment → List Float
  | ⟨_, set, _⟩ => set.floats

/-- The floats in a selection set. -/
def SelectionSet.floats : SelectionSet → List Float
  | ⟨selections, _⟩ => Selection.floatsOfList selections

/-- The floats in a selection set that a leaf lacks. -/
def SelectionSet.floatsOfOption : Option SelectionSet → List Float
  | none => []
  | some set => set.floats

/-- The floats in each selection. -/
def Selection.floatsOfList : List Selection → List Float
  | [] => []
  | selection :: selections => selection.floats ++ Selection.floatsOfList selections

end

/-- The floats in the default of a variable. -/
def VariableDefinition.floats (definition : VariableDefinition) : List Float :=
  definition.default?.toList.flatMap Literal.floats

/-- The floats in a definition. -/
def Definition.floats : Definition → List Float
  | .operation ⟨_, _, definitions, set, _⟩ =>
    definitions.flatMap VariableDefinition.floats ++ set.floats
  | .fragment ⟨_, _, set, _⟩ => set.floats

/-- The floats in a document. -/
def Document.floats (document : Document) : List Float :=
  document.definitions.flatMap Definition.floats

/-- Every float is finite. -/
abbrev AllFinite (floats : List Float) : Prop := ∀ x ∈ floats, x.isFinite = true

/-! ## Positions, names and literals -/

theorem Position.ofJson?_object {line column : Json} {l c : UInt32} (hl : line.uint32? = some l)
    (hc : column.uint32? = some c) :
    Position.ofJson? (.object [("line", line), ("column", column)]) = some ⟨l, c⟩ := by
  simp [Position.ofJson?, fields?_object, Keyed.find, hl, hc]

@[simp] theorem Position.ofJson?_toJson (p : Position) : Position.ofJson? p.toJson = some p :=
  Position.ofJson?_object (uint32?_toNat p.line) (uint32?_toNat p.column)

theorem Name.ofJson?_object {text pos : Json} {s : String} {p : Position}
    (hs : text.string? = some s) (hp : Position.ofJson? pos = some p) :
    Name.ofJson? (.object [("value", text), ("pos", pos)]) = some ⟨s, p⟩ := by
  simp [Name.ofJson?, fields?_object, Keyed.find, hs, hp]

@[simp] theorem Name.ofJson?_toJson (name : Name) : Name.ofJson? name.toJson = some name :=
  Name.ofJson?_object rfl (Position.ofJson?_toJson name.pos)

theorem Name.nullable?_toJson (name : Option Name) :
    nullable? Name.ofJson? (.ofOption Name.toJson name) = some name :=
  nullable?_ofOption fun name _ => ⟨by simp [Name.toJson], name.ofJson?_toJson⟩

mutual

/-- What a literal is encoded as decodes to it. -/
theorem Literal.ofJson?_toJson {literal : Literal} (h : AllFinite literal.floats) :
    Literal.ofJson? literal.toJson = some literal := by
  cases literal with
  | var name => simp [Literal.toJson, Literal.ofJson?, variant]
  | int n p => simp [Literal.toJson, Literal.ofJson?, variant]
  | float x p =>
    have hx := float?_ofFloat (h x List.mem_cons_self)
    simp [Literal.toJson, Literal.ofJson?, variant, hx]
  | string s p => simp [Literal.toJson, Literal.ofJson?, variant, string?]
  | bool b p => simp [Literal.toJson, Literal.ofJson?, variant, bool?]
  | null p => simp [Literal.toJson, Literal.ofJson?, variant]
  | enum name => simp [Literal.toJson, Literal.ofJson?, variant]
  | list items p =>
    have hi := Literal.itemsOfJson?_toJson h
    simp [Literal.toJson, Literal.ofJson?, variant, hi]
  | object fields p =>
    have hf := Literal.fieldsOfJson?_toJson h
    simp [Literal.toJson, Literal.ofJson?, variant, hf]

theorem Literal.itemsOfJson?_toJson {items : List Literal}
    (h : AllFinite (Literal.floatsOfItems items)) :
    Literal.itemsOfJson? (Literal.itemsToJson items) = some items := by
  cases items with
  | nil => rfl
  | cons item items =>
    obtain ⟨hi, hr⟩ := List.forall_mem_append.1 h
    simp [Literal.itemsToJson, Literal.itemsOfJson?, Literal.ofJson?_toJson hi,
      Literal.itemsOfJson?_toJson hr]

theorem Literal.fieldsOfJson?_toJson {fields : List (Name × Literal)}
    (h : AllFinite (Literal.floatsOfFields fields)) :
    Literal.fieldsOfJson? (Literal.fieldsToJson fields) = some fields := by
  cases fields with
  | nil => rfl
  | cons field fields =>
    obtain ⟨hv, hr⟩ := List.forall_mem_append.1 h
    simp [Literal.fieldsToJson, Literal.fieldsOfJson?, Literal.ofJson?_toJson hv,
      Literal.fieldsOfJson?_toJson hr]

end

theorem Literal.toJson_ne_null (literal : Literal) : literal.toJson ≠ .null := by
  cases literal <;> simp [Literal.toJson, variant]

/-! ## Selections -/

theorem Argument.ofJson?_object {name value pos : Json} {n : Name} {v : Literal} {p : Position}
    (hn : Name.ofJson? name = some n) (hv : Literal.ofJson? value = some v)
    (hp : Position.ofJson? pos = some p) :
    Argument.ofJson? (.object [("name", name), ("value", value), ("pos", pos)]) =
      some ⟨n, v, p⟩ := by
  simp [Argument.ofJson?, fields?_object, Keyed.find, hn, hv, hp]

theorem Argument.ofJson?_toJson {argument : Argument} (h : AllFinite argument.value.floats) :
    Argument.ofJson? argument.toJson = some argument :=
  Argument.ofJson?_object argument.name.ofJson?_toJson (Literal.ofJson?_toJson h)
    argument.pos.ofJson?_toJson

theorem FragmentSpread.ofJson?_object {name pos : Json} {n : Name} {p : Position}
    (hn : Name.ofJson? name = some n) (hp : Position.ofJson? pos = some p) :
    FragmentSpread.ofJson? (.object [("name", name), ("pos", pos)]) = some ⟨n, p⟩ := by
  simp [FragmentSpread.ofJson?, fields?_object, Keyed.find, hn, hp]

theorem FragmentSpread.ofJson?_toJson (spread : FragmentSpread) :
    FragmentSpread.ofJson? spread.toJson = some spread :=
  FragmentSpread.ofJson?_object spread.name.ofJson?_toJson spread.pos.ofJson?_toJson

theorem FieldSelection.ofJson?_object {aliasName name arguments set pos : Json} {a : Option Name}
    {n : Name} {as : List Argument} {s : Option SelectionSet} {p : Position}
    (ha : nullable? Name.ofJson? aliasName = some a) (hn : Name.ofJson? name = some n)
    (has : list? Argument.ofJson? arguments = some as)
    (hs : nullable? SelectionSet.ofJson? set = some s) (hp : Position.ofJson? pos = some p) :
    FieldSelection.ofJson? (.object [("alias", aliasName), ("name", name),
      ("arguments", arguments), ("selection_set", set), ("pos", pos)]) =
        some ⟨a, n, as, s, p⟩ := by
  have hf : Keyed.find "selection_set" [("alias", aliasName), ("name", name),
      ("arguments", arguments), ("selection_set", set), ("pos", pos)] = some set := by
    simp [Keyed.find]
  -- the decoder matches on the part itself, so that it may recurse into it
  obtain ⟨_, hm⟩ := memberPart_of_find hf
  rw [FieldSelection.ofJson?]
  rcases nullable?_eq_some_iff.1 hs with ⟨rfl, rfl⟩ | ⟨hne, y, hy, rfl⟩
  · simp [fields?_object, Keyed.find, hm, ha, hn, has, hp]
  · cases set with
    | null => exact absurd rfl hne
    | _ => simp [fields?_object, Keyed.find, hm, ha, hn, has, hy, hp]

theorem InlineFragment.ofJson?_object {condition set pos : Json} {c : Option Name}
    {s : SelectionSet} {p : Position} (hc : nullable? Name.ofJson? condition = some c)
    (hs : SelectionSet.ofJson? set = some s) (hp : Position.ofJson? pos = some p) :
    InlineFragment.ofJson? (.object [("type_condition", condition), ("selection_set", set),
      ("pos", pos)]) = some ⟨c, s, p⟩ := by
  have hf : Keyed.find "selection_set" [("type_condition", condition), ("selection_set", set),
      ("pos", pos)] = some set := by
    simp [Keyed.find]
  obtain ⟨_, hm⟩ := memberPart_of_find hf
  rw [InlineFragment.ofJson?]
  simp [fields?_object, Keyed.find, hm, hc, hs, hp]

theorem SelectionSet.ofJson?_object {items : List Json} {pos : Json} {selections : List Selection}
    {p : Position} (hs : Selection.listOfJson? items = some selections)
    (hp : Position.ofJson? pos = some p) :
    SelectionSet.ofJson? (.object [("selections", .array items), ("pos", pos)]) =
      some ⟨selections, p⟩ := by
  have hf : Keyed.find "selections" [("selections", .array items), ("pos", pos)] =
      some (.array items) := by
    simp [Keyed.find]
  obtain ⟨_, hm⟩ := memberPart_of_find hf
  rw [SelectionSet.ofJson?]
  simp [fields?_object, Keyed.find, hm, hs, hp]

theorem SelectionSet.toJson_ne_null (set : SelectionSet) : set.toJson ≠ .null := by
  cases set
  simp [SelectionSet.toJson]

mutual

/-- What a selection is encoded as decodes to it. -/
theorem Selection.ofJson?_toJson {selection : Selection} (h : AllFinite selection.floats) :
    Selection.ofJson? selection.toJson = some selection := by
  rw [Selection.ofJson?]
  cases selection with
  | field field => simp [Selection.toJson, variant, variant?, FieldSelection.ofJson?_toJson h]
  | spread spread => simp [Selection.toJson, variant, variant?, FragmentSpread.ofJson?_toJson]
  | inline fragment => simp [Selection.toJson, variant, variant?, InlineFragment.ofJson?_toJson h]

theorem FieldSelection.ofJson?_toJson {field : FieldSelection} (h : AllFinite field.floats) :
    FieldSelection.ofJson? field.toJson = some field := by
  obtain ⟨aliasName, name, arguments, set, p⟩ := field
  obtain ⟨ha, hs⟩ := List.forall_mem_append.1 h
  refine FieldSelection.ofJson?_object (Name.nullable?_toJson aliasName) name.ofJson?_toJson
    (list?_map fun argument hm => Argument.ofJson?_toJson ?_)
    (SelectionSet.nullable?_toJson hs) p.ofJson?_toJson
  exact fun x hx => ha x (List.mem_flatMap.2 ⟨argument, hm, hx⟩)

theorem InlineFragment.ofJson?_toJson {fragment : InlineFragment} (h : AllFinite fragment.floats) :
    InlineFragment.ofJson? fragment.toJson = some fragment := by
  obtain ⟨condition, set, p⟩ := fragment
  exact InlineFragment.ofJson?_object (Name.nullable?_toJson condition)
    (SelectionSet.ofJson?_toJson h) p.ofJson?_toJson

theorem SelectionSet.ofJson?_toJson {set : SelectionSet} (h : AllFinite set.floats) :
    SelectionSet.ofJson? set.toJson = some set := by
  obtain ⟨selections, p⟩ := set
  exact SelectionSet.ofJson?_object (Selection.listOfJson?_toJson h) p.ofJson?_toJson

theorem SelectionSet.nullable?_toJson {set : Option SelectionSet}
    (h : AllFinite (SelectionSet.floatsOfOption set)) :
    nullable? SelectionSet.ofJson? (SelectionSet.optionToJson set) = some set := by
  rw [nullable?_eq_some_iff]
  cases set with
  | none => exact .inl ⟨rfl, rfl⟩
  | some set => exact .inr ⟨set.toJson_ne_null, set, SelectionSet.ofJson?_toJson h, rfl⟩

theorem Selection.listOfJson?_toJson {selections : List Selection}
    (h : AllFinite (Selection.floatsOfList selections)) :
    Selection.listOfJson? (Selection.listToJson selections) = some selections := by
  rw [Selection.listOfJson?.eq_def]
  cases selections with
  | nil => rfl
  | cons selection selections =>
    obtain ⟨hs, hr⟩ := List.forall_mem_append.1 h
    simp [Selection.listToJson, Selection.ofJson?_toJson hs, Selection.listOfJson?_toJson hr]

end

/-! ## Definitions -/

theorem VariableDefinition.ofJson?_object {name default? pos : Json} {n : Name}
    {d : Option Literal} {p : Position} (hn : Name.ofJson? name = some n)
    (hd : nullable? Literal.ofJson? default? = some d) (hp : Position.ofJson? pos = some p) :
    VariableDefinition.ofJson? (.object [("name", name), ("default_value", default?),
      ("pos", pos)]) = some ⟨n, d, p⟩ := by
  simp [VariableDefinition.ofJson?, fields?_object, Keyed.find, hn, hd, hp]

theorem VariableDefinition.ofJson?_toJson {definition : VariableDefinition}
    (h : AllFinite definition.floats) :
    VariableDefinition.ofJson? definition.toJson = some definition := by
  refine VariableDefinition.ofJson?_object definition.name.ofJson?_toJson
    (nullable?_ofOption fun literal hl => ⟨literal.toJson_ne_null, Literal.ofJson?_toJson ?_⟩)
    definition.pos.ofJson?_toJson
  exact fun x hx => h x (List.mem_flatMap.2 ⟨literal, Option.mem_toList.2 hl, hx⟩)

theorem OperationKind.ofJson?_keyword (kind : OperationKind) :
    OperationKind.ofJson? (.string kind.keyword) = some kind := by
  cases kind <;> rfl

theorem Operation.ofJson?_object {kind name definitions set pos : Json} {k : OperationKind}
    {n : Option Name} {ds : List VariableDefinition} {s : SelectionSet} {p : Position}
    (hk : OperationKind.ofJson? kind = some k) (hn : nullable? Name.ofJson? name = some n)
    (hd : list? VariableDefinition.ofJson? definitions = some ds)
    (hs : SelectionSet.ofJson? set = some s) (hp : Position.ofJson? pos = some p) :
    Operation.ofJson? (.object [("operation", kind), ("name", name), ("variables", definitions),
      ("selection_set", set), ("pos", pos)]) = some ⟨k, n, ds, s, p⟩ := by
  simp [Operation.ofJson?, fields?_object, Keyed.find, hk, hn, hd, hs, hp]

theorem FragmentDefinition.ofJson?_object {name condition set pos : Json} {n c : Name}
    {s : SelectionSet} {p : Position} (hn : Name.ofJson? name = some n)
    (hc : Name.ofJson? condition = some c) (hs : SelectionSet.ofJson? set = some s)
    (hp : Position.ofJson? pos = some p) :
    FragmentDefinition.ofJson? (.object [("name", name), ("type_condition", condition),
      ("selection_set", set), ("pos", pos)]) = some ⟨n, c, s, p⟩ := by
  simp [FragmentDefinition.ofJson?, fields?_object, Keyed.find, hn, hc, hs, hp]

theorem Definition.ofJson?_toJson {definition : Definition} (h : AllFinite definition.floats) :
    Definition.ofJson? definition.toJson = some definition := by
  cases definition with
  | operation operation =>
    obtain ⟨kind, name, definitions, set, p⟩ := operation
    obtain ⟨hd, hs⟩ := List.forall_mem_append.1 h
    have ho := Operation.ofJson?_object kind.ofJson?_keyword (Name.nullable?_toJson name)
      (list?_map fun definition hm => VariableDefinition.ofJson?_toJson fun x hx =>
        hd x (List.mem_flatMap.2 ⟨definition, hm, hx⟩))
      (SelectionSet.ofJson?_toJson hs) p.ofJson?_toJson
    simp [Definition.ofJson?, Definition.toJson, Operation.toJson, variant, variant?, ho]
  | fragment fragment =>
    obtain ⟨name, condition, set, p⟩ := fragment
    have hf := FragmentDefinition.ofJson?_object name.ofJson?_toJson condition.ofJson?_toJson
      (SelectionSet.ofJson?_toJson h) p.ofJson?_toJson
    simp [Definition.ofJson?, Definition.toJson, FragmentDefinition.toJson, variant, variant?, hf]

theorem Document.ofJson?_object {definitions : Json} {ds : List Definition}
    (hd : list? Definition.ofJson? definitions = some ds) :
    Document.ofJson? (.object [("definitions", definitions)]) = some ⟨ds⟩ := by
  simp [Document.ofJson?, fields?_object, Keyed.find, hd]

/-- **What a document with finite floats is encoded as decodes to it**, so every text
that reads as the encoding loads as the document. -/
theorem Document.ofJson?_toJson_of_finite (document : Document) (h : AllFinite document.floats) :
    Document.ofJson? document.toJson = some document ∧
      ∀ text, Json.readWithin? text = some document.toJson →
        Document.ofText? text = some document := by
  have hd : Document.ofJson? document.toJson = some document :=
    Document.ofJson?_object (list?_map fun definition hm => Definition.ofJson?_toJson fun x hx =>
      h x (List.mem_flatMap.2 ⟨definition, hm, hx⟩))
  refine ⟨hd, fun text ht => ?_⟩
  rw [Document.ofText?, ht, Option.bind_some, hd]

/-- An object literal that holds the other kinds of literal, and a name twice. -/
def everyLiteral : Literal :=
  .object
    [(⟨"list", ⟨2, 30⟩⟩,
        .list [.int (-1) ⟨2, 37⟩, .float (-2.5e20) ⟨2, 41⟩, .null ⟨2, 50⟩] ⟨2, 36⟩),
      (⟨"text", ⟨2, 56⟩⟩, .string "a" ⟨2, 62⟩),
      (⟨"kind", ⟨2, 67⟩⟩, .enum ⟨"NEW", ⟨2, 73⟩⟩),
      (⟨"text", ⟨2, 78⟩⟩, .bool true ⟨2, 84⟩)] ⟨2, 29⟩

/-- A field with an alias, arguments and a selection set. -/
def everyField : FieldSelection where
  aliasName := some ⟨"done", ⟨2, 3⟩⟩
  name := ⟨"change", ⟨2, 9⟩⟩
  arguments := [⟨⟨"by", ⟨2, 16⟩⟩, .var ⟨"id", ⟨2, 20⟩⟩, ⟨2, 16⟩⟩,
    ⟨⟨"to", ⟨2, 25⟩⟩, everyLiteral, ⟨2, 25⟩⟩]
  selectionSet := some
    ⟨[.field ⟨none, ⟨"id", ⟨3, 5⟩⟩, [], none, ⟨3, 5⟩⟩, .spread ⟨⟨"All", ⟨3, 11⟩⟩, ⟨3, 8⟩⟩], ⟨2, 90⟩⟩
  pos := ⟨2, 3⟩

/-- A document with every kind of node. -/
def everyNode : Document :=
  ⟨[.operation ⟨.mutation, some ⟨"Change", ⟨1, 10⟩⟩,
      [⟨⟨"rate", ⟨1, 18⟩⟩, some (.float 0.1 ⟨1, 24⟩), ⟨1, 17⟩⟩,
        ⟨⟨"id", ⟨1, 30⟩⟩, none, ⟨1, 29⟩⟩],
      ⟨[.field everyField,
        .inline ⟨none, ⟨[.inline ⟨some ⟨"Node", ⟨4, 14⟩⟩, ⟨[], ⟨4, 19⟩⟩, ⟨4, 7⟩⟩], ⟨4, 5⟩⟩, ⟨4, 1⟩⟩],
        ⟨1, 40⟩⟩, ⟨1, 1⟩⟩,
    .fragment ⟨⟨"All", ⟨6, 10⟩⟩, ⟨"Node", ⟨6, 17⟩⟩, ⟨[], ⟨6, 22⟩⟩, ⟨6, 1⟩⟩]⟩

theorem everyNode_ofJson?_toJson :
    everyNode.floats = [0.1, -2.5e20] ∧ AllFinite everyNode.floats ∧
      Document.ofJson? everyNode.toJson = some everyNode := by
  have finite : AllFinite everyNode.floats := by decide
  exact ⟨rfl, finite, (Document.ofJson?_toJson_of_finite everyNode finite).1⟩

end GraphQL
