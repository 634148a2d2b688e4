import GraphQL.Proofs.Avoiding
import GraphQL.Validation.Basic

/-!
# Validation — reachable selections

Which selections a document has checked, and against which type, said
without the walk: a selection on a type passes to what is below it
(`Descends`), and the reachable pairs are the closure of the operations'
own selections under that (`Reachable`).

The walk follows spreads along a path of names and does not follow a name
that is on the path already. Main statement: the findings of a document
are the findings of its reachable pairs one by one, so this cut loses
nothing, cyclic fragments included. The argument is over derivations, not
over the syntax: a derivation that passes a fragment twice can be started
behind its last entry into that fragment (`avoiding_cons_or`).
-/

namespace GraphQL.Validation

open Relation

/-! ## Passing from a selection to what is below it -/

/-- A fragment on `type` is looked into under `parent`: a union admits its
listed members only, every other parent admits every type. -/
def Admits (parent type : TypeDefinition) : Prop :=
  ∀ union, parent = .union union → union.hasMember type.name = true

/-- A selection that stands for a fragment with a type condition: its name
if it has one, the condition, where it is written, and its selections. -/
inductive Conditioned (table : FragmentTable) :
    Selection → Option String → String → Position → List Selection → Prop
  | inline {fragment : InlineFragment} {condition : Name}
      (hc : fragment.typeCondition = some condition) :
      Conditioned table (.inline fragment) none condition.value fragment.pos fragment.selections
  | spread {spread : FragmentSpread} {fragment : FragmentDefinition}
      (hf : table.get? spread.name.value = some fragment) :
      Conditioned table (.spread spread) (some spread.name.value) fragment.typeCondition.value
        spread.pos fragment.selections

/-- A selection made on `parent` passes to the selections `body`, made on `type`. -/
inductive Descends (schema : Schema) (table : FragmentTable) (parent : TypeDefinition) :
    Selection → List Selection → TypeDefinition → Prop
  | field {field : FieldSelection} {definition : FieldDefinition} {type : TypeDefinition}
      (hf : schema.field? parent field.name.value = some definition)
      (ht : schema.type? definition.type.base = some type) (hs : type.hasSubfields = true) :
      Descends schema table parent (.field field) field.selections type
  | bare {fragment : InlineFragment} (hc : fragment.typeCondition = none) :
      Descends schema table parent (.inline fragment) fragment.selections parent
  | conditioned {selection : Selection} {name : Option String} {condition : String}
      {p : Position} {body : List Selection} {type : TypeDefinition}
      (hs : Conditioned table selection name condition p body)
      (ht : schema.type? condition = some type) (ha : Admits parent type) :
      Descends schema table parent selection body type

/-- The selections that are checked, each with the type it is checked
against: those of every operation that has a root type, and whatever they
pass to. -/
inductive Reachable (schema : Schema) (document : Document) : Selection → TypeDefinition → Prop
  | root {operation : Operation} {root : TypeDefinition} {selection : Selection}
      (ho : operation ∈ document.operations) (hr : schema.rootType? operation.kind = some root)
      (hs : selection ∈ operation.selections) : Reachable schema document selection root
  | descend {selection inner : Selection} {parent type : TypeDefinition} {body : List Selection}
      (h : Reachable schema document selection parent)
      (hd : Descends schema (.ofDocument document) parent selection body type)
      (hs : inner ∈ body) : Reachable schema document inner type

/-! ## One step of the walk -/

/-- The step of the walk at a selection. -/
def selectionStep (schema : Schema) (table : FragmentTable) (parent : TypeDefinition) :
    Selection → Step
  | .field field => fieldStep schema parent field
  | .inline fragment => inlineStep schema parent fragment
  | .spread spread =>
    match table.get? spread.name.value with
    | none => ⟨[.undefinedSpread spread], none⟩
    | some fragment =>
      fragmentStep schema parent (some spread.name.value) fragment.typeCondition.value spread.pos

/-- The name that a selection spreads. -/
def spreadName? : Selection → Option String
  | .spread spread => some spread.name.value
  | _ => none

/-- The path inside a selection: a spread puts its name on it. -/
def extend (path : List String) (selection : Selection) : List String :=
  (spreadName? selection).toList ++ path

/-- The finding tells that a spread is not followed again. -/
def IsCut : Finding → Prop
  | .repeatedSpread _ => True
  | _ => False

variable {schema : Schema} {table : FragmentTable} {parent : TypeDefinition}

theorem admits_of_ne_union {type : TypeDefinition} (hu : ∀ union, parent ≠ .union union) :
    Admits parent type := fun union h => absurd h (hu union)

/-- The step at a fragment with a type condition, as a case distinction. -/
theorem fragmentStep_cases (schema : Schema) (parent : TypeDefinition) (name : Option String)
    (condition : String) (p : Position) :
    (schema.type? condition = none ∧
      fragmentStep schema parent name condition p = ⟨[.problem (.unknownType condition) p], none⟩) ∨
    ∃ type, schema.type? condition = some type ∧
      ((∃ union, parent = .union union ∧ union.hasMember type.name = true ∧
          fragmentStep schema parent name condition p = ⟨[], some type⟩) ∨
        (∃ union, parent = .union union ∧ union.hasMember type.name = false ∧
          fragmentStep schema parent name condition p =
            ⟨[.problem (.impossibleSpread name parent.name type.name) p], none⟩) ∨
        ((∀ union, parent ≠ .union union) ∧ fragmentStep schema parent name condition p =
          ⟨if schema.overlap type parent then []
            else [.problem (.impossibleSpread name parent.name type.name) p], some type⟩)) := by
  cases ht : schema.type? condition with
  | none => exact .inl ⟨rfl, by simp [fragmentStep, ht]⟩
  | some type =>
    refine .inr ⟨type, rfl, ?_⟩
    cases parent with
    | union union =>
      cases hm : union.hasMember type.name with
      | true => exact .inl ⟨union, rfl, hm, by simp [fragmentStep, ht, hm]⟩
      | false => exact .inr (.inl ⟨union, rfl, hm, by simp [fragmentStep, ht, hm]⟩)
    | _ => exact .inr (.inr ⟨by simp, by simp [fragmentStep, ht]⟩)

/-- A fragment with a type condition is looked into exactly if the condition
names a type that the parent admits. -/
theorem type?_fragmentStep_iff {name : Option String} {condition : String} {p : Position}
    {type : TypeDefinition} :
    (fragmentStep schema parent name condition p).type? = some type ↔
      schema.type? condition = some type ∧ Admits parent type := by
  rcases fragmentStep_cases schema parent name condition p with
    ⟨hn, hs⟩ | ⟨found, ht, ⟨union, hu, hm, hs⟩ | ⟨union, hu, hm, hs⟩ | ⟨hu, hs⟩⟩
  · simp [hs, hn]
  · rw [hs, ht]
    constructor
    · intro h
      cases h
      refine ⟨rfl, ?_⟩
      intro other ho
      cases hu.symm.trans ho
      exact hm
    · exact fun h => h.1
  · rw [hs, ht]
    constructor
    · intro h
      cases h
    · rintro ⟨h, ha⟩
      cases h
      simp [ha union hu] at hm
  · rw [hs, ht]
    exact ⟨fun h => ⟨h, admits_of_ne_union hu⟩, fun h => h.1⟩

/-- A field is looked into exactly if its type has subfields and it has selections. -/
theorem type?_fieldStep_iff {field : FieldSelection} {type : TypeDefinition} :
    (fieldStep schema parent field).type? = some type ↔
      ∃ definition, schema.field? parent field.name.value = some definition ∧
        schema.type? definition.type.base = some type ∧ type.hasSubfields = true ∧
        field.selections ≠ [] := by
  cases hf : schema.field? parent field.name.value with
  | none => simp [fieldStep, hf]
  | some definition =>
    cases ht : schema.type? definition.type.base with
    | none => simp [fieldStep, hf, ht]
    | some found =>
      have hstep : (fieldStep schema parent field).type? =
          if found.hasSubfields = true ∧ field.selections ≠ [] then some found else none := by
        cases hs : found.hasSubfields <;> by_cases he : field.selections = [] <;>
          simp [fieldStep, hf, ht, hs, he]
      rw [hstep]
      constructor
      · intro h
        split at h
        · rename_i hc
          cases h
          exact ⟨definition, rfl, ht, hc⟩
        · cases h
      · rintro ⟨other, ho, hb, hc⟩
        cases ho
        cases ht.symm.trans hb
        rw [if_pos hc]

/-- A field that is found has the findings of its arguments, and behind them
at most a problem with its selections. -/
theorem fieldStep_findings {field : FieldSelection} {definition : FieldDefinition}
    (hf : schema.field? parent field.name.value = some definition) :
    ∃ own, (fieldStep schema parent field).findings =
        argumentFindings schema parent field definition ++ own ∧
      ∀ finding ∈ own, ∃ cause p, finding = .problem cause p := by
  cases ht : schema.type? definition.type.base with
  | none => exact ⟨[], by simp [fieldStep, hf, ht], by simp⟩
  | some type =>
    cases hs : type.hasSubfields <;> by_cases he : field.selections = [] <;>
      simp [fieldStep, hf, ht, hs, he]

/-- The selections below a selection: for a spread those of its fragment. -/
def bodyOf (table : FragmentTable) : Selection → List Selection
  | .field field => field.selections
  | .inline fragment => fragment.selections
  | .spread spread =>
    match table.get? spread.name.value with
    | none => []
    | some fragment => fragment.selections

theorem inlineStep_of_none {fragment : InlineFragment} (hc : fragment.typeCondition = none) :
    inlineStep schema parent fragment = ⟨[], some parent⟩ := by
  simp [inlineStep, hc]

theorem inlineStep_of_some {fragment : InlineFragment} {condition : Name}
    (hc : fragment.typeCondition = some condition) :
    inlineStep schema parent fragment =
      fragmentStep schema parent none condition.value fragment.pos := by
  simp [inlineStep, hc]

/-- The step at a selection with a type condition is that of the condition. -/
theorem Conditioned.selectionStep {selection : Selection} {name : Option String}
    {condition : String} {p : Position} {body : List Selection}
    (h : Conditioned table selection name condition p body) (schema : Schema)
    (parent : TypeDefinition) :
    Validation.selectionStep schema table parent selection =
      fragmentStep schema parent name condition p ∧ body = bodyOf table selection := by
  cases h with
  | inline hc => exact ⟨inlineStep_of_some hc, rfl⟩
  | spread hf => simp [Validation.selectionStep, bodyOf, hf]

/-- A selection passes to nothing but the selections below it. -/
theorem Descends.eq_bodyOf {selection : Selection} {body : List Selection} {type : TypeDefinition}
    (h : Descends schema table parent selection body type) : body = bodyOf table selection := by
  cases h with
  | field => rfl
  | bare => rfl
  | conditioned hc => exact (hc.selectionStep schema parent).2

/-- The walk looks into a selection exactly where the selection passes to
something: the two descriptions of what is below it agree. -/
theorem descends_iff {selection inner : Selection} {type : TypeDefinition} :
    (∃ body, Descends schema table parent selection body type ∧ inner ∈ body) ↔
      (selectionStep schema table parent selection).type? = some type ∧
        inner ∈ bodyOf table selection := by
  constructor
  · rintro ⟨body, hd, hi⟩
    cases hd with
    | field hf ht hs => exact ⟨type?_fieldStep_iff.2 ⟨_, hf, ht, hs, List.ne_nil_of_mem hi⟩, hi⟩
    | bare hc => exact ⟨by simp [selectionStep, inlineStep_of_none hc], hi⟩
    | conditioned hs ht ha =>
      obtain ⟨hstep, rfl⟩ := hs.selectionStep schema parent
      exact ⟨hstep ▸ type?_fragmentStep_iff.2 ⟨ht, ha⟩, hi⟩
  · rintro ⟨ht, hi⟩
    cases selection with
    | field field =>
      obtain ⟨definition, hf, hd, hs, -⟩ := type?_fieldStep_iff.1 ht
      exact ⟨_, .field hf hd hs, hi⟩
    | inline fragment =>
      cases hc : fragment.typeCondition with
      | none =>
        simp only [selectionStep, inlineStep_of_none hc] at ht
        cases ht
        exact ⟨_, .bare hc, hi⟩
      | some condition =>
        simp only [selectionStep, inlineStep_of_some hc] at ht
        obtain ⟨hk, ha⟩ := type?_fragmentStep_iff.1 ht
        exact ⟨_, .conditioned (.inline hc) hk ha, hi⟩
    | spread spread =>
      cases hf : table.get? spread.name.value with
      | none => simp [selectionStep, hf] at ht
      | some fragment =>
        simp only [selectionStep, bodyOf, hf] at ht hi
        obtain ⟨hk, ha⟩ := type?_fragmentStep_iff.1 ht
        exact ⟨_, .conditioned (.spread hf) hk ha, hi⟩

/-! ## The findings of the walk -/

variable {path : List String} {finding : Finding}

theorem selectionsFindings_eq (selections : List Selection) :
    selectionsFindings schema table path parent selections =
      selections.flatMap (selectionFindings schema table path parent) := by
  induction selections with
  | nil => simp [selectionsFindings]
  | cons selection selections ih => simp [selectionsFindings, ih]

/-- What the walk finds below a selection on a type: a cut where the selection
spreads a name on the path. -/
def inside (schema : Schema) (table : FragmentTable) (path : List String)
    (type : TypeDefinition) : Selection → List Finding
  | .spread spread =>
    if spread.name.value ∈ path then [.repeatedSpread spread]
    else selectionsFindings schema table (spread.name.value :: path) type
      (bodyOf table (.spread spread))
  | selection => selectionsFindings schema table path type (bodyOf table selection)

/-- **The equation of the walk**, the same for every kind of selection. -/
theorem selectionFindings_eq (selection : Selection) :
    selectionFindings schema table path parent selection =
      (selectionStep schema table parent selection).findings ++
        ((selectionStep schema table parent selection).type?.elim []
          fun type => inside schema table path type selection) := by
  cases selection with
  | field field =>
    rw [selectionFindings]
    cases h : (fieldStep schema parent field).type? <;> simp [selectionStep, inside, bodyOf, h]
  | inline fragment =>
    rw [selectionFindings]
    cases h : (inlineStep schema parent fragment).type? <;> simp [selectionStep, inside, bodyOf, h]
  | spread spread =>
    rw [selectionFindings]
    split
    · rename_i hf
      simp [selectionStep, hf]
    · rename_i fragment hf
      simp only [selectionStep, hf]
      cases (fragmentStep schema parent (some spread.name.value) fragment.typeCondition.value
        spread.pos).type? with
      | none => rfl
      | some type =>
        by_cases hp : spread.name.value ∈ path <;> simp [inside, bodyOf, hf, hp]

/-! ## Pairs of a selection and its type -/

/-- A selection on a type passes to one of the selections below it. -/
def Passes (schema : Schema) (table : FragmentTable) (a b : Selection × TypeDefinition) : Prop :=
  ∃ body, Descends schema table a.2 a.1 body b.2 ∧ b.1 ∈ body

/-- Passing on along a path of names that are being expanded. -/
abbrev PassesAlong (schema : Schema) (table : FragmentTable) (path : List String) :
    Selection × TypeDefinition → Selection × TypeDefinition → Prop :=
  Avoiding (Passes schema table) (fun a => spreadName? a.1) path

theorem passes_iff {a b : Selection × TypeDefinition} :
    Passes schema table a b ↔
      (selectionStep schema table a.2 a.1).type? = some b.2 ∧ b.1 ∈ bodyOf table a.1 :=
  descends_iff

theorem bodyOf_of_spread {selection : Selection} {name : String} {fragment : FragmentDefinition}
    (hs : spreadName? selection = some name) (hf : table.get? name = some fragment) :
    bodyOf table selection = fragment.selections := by
  cases selection with
  | spread spread =>
    cases hs
    simp [bodyOf, hf]
  | _ => cases hs

/-- A spread passes to the selections of its fragment, on the fragment's type. -/
theorem Passes.of_spread {a b : Selection × TypeDefinition} {name : String}
    (hs : spreadName? a.1 = some name) (h : Passes schema table a b) :
    ∃ fragment, table.get? name = some fragment ∧
      schema.type? fragment.typeCondition.value = some b.2 ∧ b.1 ∈ fragment.selections := by
  obtain ⟨body, hd, hi⟩ := h
  obtain ⟨selection, parent⟩ := a
  cases hd with
  | field => cases hs
  | bare => cases hs
  | conditioned hk ht =>
    cases hk with
    | inline => cases hs
    | spread hf =>
      cases hs
      exact ⟨_, hf, ht, hi⟩

/-- What is below a spread does not depend on where the spread stands. -/
theorem Passes.of_same_name {a b c d : Selection × TypeDefinition} {name : String}
    (ha : spreadName? a.1 = some name) (hc : spreadName? c.1 = some name)
    (hab : Passes schema table a b) (hcd : Passes schema table c d) : Passes schema table a d := by
  obtain ⟨fragment, hf, hb, -⟩ := hab.of_spread ha
  obtain ⟨fragment', hf', hd, hi⟩ := hcd.of_spread hc
  cases hf.symm.trans hf'
  rw [passes_iff, bodyOf_of_spread ha hf]
  rw [passes_iff] at hab
  exact ⟨hab.1.trans (hb.symm.trans hd), hi⟩

/-- A selection that spreads a name on the path, if the walk would look into it. -/
def cutFindings (path : List String) (type? : Option TypeDefinition) : Selection → List Finding
  | .spread spread =>
    if type?.isSome = true ∧ spread.name.value ∈ path then [.repeatedSpread spread] else []
  | _ => []

/-- What the walk finds at a selection before it goes on. -/
def ownFindings (schema : Schema) (table : FragmentTable) (path : List String)
    (parent : TypeDefinition) (selection : Selection) : List Finding :=
  (selectionStep schema table parent selection).findings ++
    cutFindings path (selectionStep schema table parent selection).type? selection

/-- What the walk finds below a selection: that it is cut, or what it finds at
the selections below, along the longer path. -/
theorem mem_inside_iff {selection : Selection} {type : TypeDefinition} :
    finding ∈ inside schema table path type selection ↔
      finding ∈ cutFindings path (some type) selection ∨
      ((∀ name, spreadName? selection = some name → name ∉ path) ∧
        ∃ inner ∈ bodyOf table selection,
          finding ∈ selectionFindings schema table (extend path selection) type inner) := by
  cases selection with
  | spread spread =>
    by_cases hp : spread.name.value ∈ path
    · simp [inside, cutFindings, hp, spreadName?]
    · simp [inside, cutFindings, hp, spreadName?, extend, selectionsFindings_eq]
  | _ => simp [inside, cutFindings, spreadName?, extend, selectionsFindings_eq]

/-- **One step of the walk**: the findings of a selection are its own and those
of what it passes to, along the longer path. -/
theorem mem_selectionFindings_iff {a : Selection × TypeDefinition} :
    finding ∈ selectionFindings schema table path a.2 a.1 ↔
      finding ∈ ownFindings schema table path a.2 a.1 ∨
      ∃ b, PassesAlong schema table path a b ∧
        finding ∈ selectionFindings schema table (extend path a.1) b.2 b.1 := by
  rw [selectionFindings_eq, ownFindings, List.mem_append, List.mem_append, or_assoc]
  refine or_congr Iff.rfl ?_
  cases ht : (selectionStep schema table a.2 a.1).type? with
  | none =>
    have hc : cutFindings path none a.1 = [] := by
      cases a.1 <;> simp [cutFindings]
    simp [Avoiding, passes_iff, ht, hc]
  | some type =>
    simp only [Option.elim, mem_inside_iff]
    refine or_congr Iff.rfl ⟨?_, ?_⟩
    · rintro ⟨ho, inner, hi, h⟩
      exact ⟨(inner, type), ⟨passes_iff.2 ⟨ht, hi⟩, ho⟩, h⟩
    · rintro ⟨⟨inner, found⟩, ⟨hp, ho⟩, h⟩
      obtain ⟨hf, hi⟩ := passes_iff.1 hp
      cases ht.symm.trans hf
      exact ⟨ho, inner, hi, h⟩

/-- Apart from cuts, what is found at a selection is what its step finds. -/
theorem mem_ownFindings_iff (hc : ¬ IsCut finding) {selection : Selection} :
    finding ∈ ownFindings schema table path parent selection ↔
      finding ∈ (selectionStep schema table parent selection).findings := by
  have hn : finding ∉ cutFindings path (selectionStep schema table parent selection).type?
      selection := by
    intro h
    unfold cutFindings at h
    split at h
    · split at h
      · cases List.mem_singleton.1 h
        exact hc trivial
      · cases h
    · cases h
  rw [ownFindings, List.mem_append, or_iff_left hn]

/-- Every step leaves less to do: fewer names to expand, or a smaller selection. -/
theorem PassesAlong.measure_lt {a b : Selection × TypeDefinition}
    (h : PassesAlong schema table path a b) :
    Prod.Lex (· < ·) (· < ·) (table.unvisited (extend path a.1), sizeOf b.1)
      (table.unvisited path, sizeOf a.1) := by
  obtain ⟨selection, parent⟩ := a
  have hi := (passes_iff.1 h.1).2
  have hlt := List.sizeOf_lt_of_mem hi
  cases selection with
  | field field =>
    have := field.sizeOf_selections_lt
    refine .right _ ?_
    simp only [bodyOf, Selection.field.sizeOf_spec] at hlt ⊢
    omega
  | inline fragment =>
    have := fragment.sizeOf_selections_lt
    refine .right _ ?_
    simp only [bodyOf, Selection.inline.sizeOf_spec] at hlt ⊢
    omega
  | spread spread =>
    obtain ⟨fragment, hf, -⟩ := h.1.of_spread rfl
    exact .left _ _ (FragmentTable.unvisited_cons_lt hf (h.2 _ rfl))

/-! ## Findings and reachability -/

/-- The finding belongs to something that `a` passes on to. -/
def Found (schema : Schema) (table : FragmentTable) (finding : Finding)
    (a : Selection × TypeDefinition) : Prop :=
  ∃ b, ReflTransGen (Passes schema table) a b ∧
    finding ∈ (selectionStep schema table b.2 b.1).findings

theorem Found.head {a b : Selection × TypeDefinition} (hp : Passes schema table a b)
    (h : Found schema table finding b) : Found schema table finding a := by
  obtain ⟨c, hr, hf⟩ := h
  exact ⟨c, .head hp hr, hf⟩

/-- Soundness: whatever the walk finds, apart from cuts, belongs to something
that the selection passes on to. -/
theorem found_of_mem (hc : ¬ IsCut finding) (path : List String)
    (a : Selection × TypeDefinition)
    (h : finding ∈ selectionFindings schema table path a.2 a.1) :
    Found schema table finding a := by
  rcases mem_selectionFindings_iff.1 h with h | ⟨b, hb, h⟩
  · exact ⟨a, .refl, (mem_ownFindings_iff hc).1 h⟩
  · exact (found_of_mem hc (extend path a.1) b h).head hb.1
termination_by (table.unvisited path, sizeOf a.1)
decreasing_by exact hb.measure_lt

/-- Completeness, cycles included: what belongs to something that `a` passes
on to along the path is found along the path. A spread at the head of the
derivation makes the path longer; behind the last entry into its fragment the
derivation avoids the longer path, and that entry is one the spread itself
could have taken. -/
theorem mem_of_passesAlong (hc : ¬ IsCut finding) {a b : Selection × TypeDefinition}
    (h : ReflTransGen (PassesAlong schema table path) a b)
    (hf : finding ∈ (selectionStep schema table b.2 b.1).findings) :
    finding ∈ selectionFindings schema table path a.2 a.1 := by
  induction hn : table.unvisited path using Nat.strongRecOn generalizing path a with
  | _ n ih =>
    subst hn
    induction h using ReflTransGen.head_induction_on with
    | refl => exact mem_selectionFindings_iff.2 (.inl ((mem_ownFindings_iff hc).2 hf))
    | @head a d hstep hrest ih_rest =>
      refine mem_selectionFindings_iff.2 (.inr ?_)
      cases hs : spreadName? a.1 with
      | none => exact ⟨d, hstep, by simpa [extend, hs] using ih_rest⟩
      | some name =>
        obtain ⟨fragment, hg, -⟩ := hstep.1.of_spread hs
        have hlt := FragmentTable.unvisited_cons_lt hg (hstep.2 name hs)
        have hext : extend path a.1 = name :: path := by simp [extend, hs]
        rw [hext]
        -- from here on the name is not used again, or it was used last at `e`
        rcases avoiding_cons_or name hrest with hd | ⟨e, g, hname, hp, hg⟩
        · exact ⟨d, hstep, ih _ hlt hd rfl⟩
        · exact ⟨g, ⟨hstep.1.of_same_name hs hname hp, hstep.2⟩, ih _ hlt hg rfl⟩

/-- A list of selections has, apart from cuts, the findings of all that its
selections pass on to. -/
theorem mem_selectionsFindings_nil_iff (hc : ¬ IsCut finding) {selections : List Selection} :
    finding ∈ selectionsFindings schema table [] parent selections ↔
      ∃ selection ∈ selections, Found schema table finding (selection, parent) := by
  rw [selectionsFindings_eq, List.mem_flatMap]
  refine exists_congr fun selection => and_congr_right fun _ => ⟨found_of_mem hc _ (_, _), ?_⟩
  rintro ⟨b, hr, hf⟩
  rw [← avoiding_nil (Passes schema table) fun a => spreadName? a.1] at hr
  exact mem_of_passesAlong hc hr hf

/-- The reachable pairs are those that the operations' selections pass on to. -/
theorem reachable_iff {document : Document} {selection : Selection} :
    Reachable schema document selection parent ↔
      ∃ operation ∈ document.operations, ∃ root, schema.rootType? operation.kind = some root ∧
        ∃ first ∈ operation.selections,
          ReflTransGen (Passes schema (.ofDocument document)) (first, root) (selection, parent) := by
  constructor
  · intro h
    induction h with
    | root ho hr hs => exact ⟨_, ho, _, hr, _, hs, .refl⟩
    | descend _ hd hs ih =>
      obtain ⟨operation, ho, root, hr, first, hf, h⟩ := ih
      exact ⟨operation, ho, root, hr, first, hf, h.tail ⟨_, hd, hs⟩⟩
  · rintro ⟨operation, ho, root, hr, first, hf, h⟩
    have reach : ∀ b : Selection × TypeDefinition,
        ReflTransGen (Passes schema (.ofDocument document)) (first, root) b →
        Reachable schema document b.1 b.2 := by
      intro b h
      induction h with
      | refl => exact .root ho hr hf
      | tail _ hp ih =>
        obtain ⟨body, hd, hi⟩ := hp
        exact ih.descend hd hi
    exact reach _ h

/-- **The findings of a document**, apart from cuts, are the missing root types
of its operations and the findings of its reachable pairs. -/
theorem mem_documentFindings_iff (hc : ¬ IsCut finding) {document : Document} :
    finding ∈ documentFindings schema document ↔
      (∃ operation ∈ document.operations, schema.rootType? operation.kind = none ∧
        finding = .problem (.missingRoot operation.kind) operation.pos) ∨
      ∃ selection parent, Reachable schema document selection parent ∧
        finding ∈ (selectionStep schema (.ofDocument document) parent selection).findings := by
  simp only [documentFindings, List.mem_flatMap, operationFindings]
  constructor
  · rintro ⟨operation, ho, h⟩
    cases hr : schema.rootType? operation.kind with
    | none =>
      simp only [hr, List.mem_singleton] at h
      exact .inl ⟨operation, ho, hr, h⟩
    | some root =>
      simp only [hr] at h
      obtain ⟨first, hs, b, hp, hf⟩ := (mem_selectionsFindings_nil_iff hc).1 h
      exact .inr ⟨b.1, b.2, reachable_iff.2 ⟨operation, ho, root, hr, first, hs, hp⟩, hf⟩
  · rintro (⟨operation, ho, hr, rfl⟩ | ⟨selection, parent, h, hf⟩)
    · exact ⟨operation, ho, by simp [hr]⟩
    · obtain ⟨operation, ho, root, hr, first, hs, hp⟩ := reachable_iff.1 h
      refine ⟨operation, ho, ?_⟩
      simp only [hr]
      exact (mem_selectionsFindings_nil_iff hc).2 ⟨first, hs, _, hp, hf⟩

end GraphQL.Validation
