import GraphQL.Proofs.Validation.Coercion
import GraphQL.Proofs.Validation.Valid
import GraphQL.Subscription.RootField

/-!
# Subscriptions — the root field as the first field

The field that a subscription runs is the first one met depth first, each
selection taken with the type that it is checked against (`FirstField`). The
collector of root fields enters every fragment once and looks at no types.
On an acyclic document this makes no difference: a fragment that is met again
has been worked off without a field, or it could not be met (`Started`).
-/

namespace GraphQL.Subscription

open Relation Validation

/-- The first field among selections and what they pass on to, and its type. -/
inductive FirstField (schema : Schema) (table : FragmentTable) :
    List (Selection × TypeDefinition) → FieldSelection → TypeDefinition → Prop
  | field {field : FieldSelection} {parent : TypeDefinition}
      {pending : List (Selection × TypeDefinition)} :
      FirstField schema table ((.field field, parent) :: pending) field parent
  | fragment {selection : Selection} {parent type found : TypeDefinition} {body : List Selection}
      {pending : List (Selection × TypeDefinition)} {first : FieldSelection}
      (hs : ∀ field, selection ≠ .field field)
      (hb : Descends schema table parent selection body type)
      (h : FirstField schema table (body.map (fun inner => (inner, type)) ++ pending) first found) :
      FirstField schema table ((selection, parent) :: pending) first found

/-- No field is met in the selections. -/
inductive Fieldless (table : FragmentTable) : List Selection → Prop
  | nil : Fieldless table []
  | cons {selection : Selection} {rest : List Selection} (hs : ∀ field, selection ≠ .field field)
      (hb : Fieldless table (bodyOf table selection)) (hr : Fieldless table rest) :
      Fieldless table (selection :: rest)

/-- A fragment was entered, and what is left of it comes first: if that has no
field, then the fragment has none. -/
def Started (table : FragmentTable) (pending : List Selection) (name : String) : Prop :=
  ∃ fragment inner outer, table.get? name = some fragment ∧ pending = inner ++ outer ∧
    (Fieldless table inner → Fieldless table fragment.selections) ∧
    ∀ spread ∈ Selection.spreadsOfList inner, TransGen table.Spreads name spread.name.value

variable {schema : Schema} {table : FragmentTable}

theorem Fieldless.append_iff {xs ys : List Selection} :
    Fieldless table (xs ++ ys) ↔ Fieldless table xs ∧ Fieldless table ys := by
  induction xs with
  | nil => exact ⟨fun h => ⟨.nil, h⟩, fun h => h.2⟩
  | cons x xs ih =>
    constructor
    · intro h
      cases h with
      | cons hs hb hr =>
        obtain ⟨hx, hy⟩ := ih.1 hr
        exact ⟨.cons hs hb hx, hy⟩
    · rintro ⟨h, hy⟩
      cases h with
      | cons hs hb hr => exact .cons hs hb (ih.2 ⟨hr, hy⟩)

theorem spreadsOfList_append (xs ys : List Selection) :
    Selection.spreadsOfList (xs ++ ys) =
      Selection.spreadsOfList xs ++ Selection.spreadsOfList ys := by
  induction xs with
  | nil => simp [Selection.spreadsOfList]
  | cons x xs ih => simp [Selection.spreadsOfList, ih]

/-- Whatever a name leads to through a selection, it leads to through its body. -/
theorem leads_of_mem_bodyOf {name : String} {selection : Selection} {rest : List Selection}
    (h : ∀ spread ∈ Selection.spreadsOfList (selection :: rest),
      TransGen table.Spreads name spread.name.value)
    {spread : FragmentSpread} (hm : spread ∈ Selection.spreadsOfList (bodyOf table selection)) :
    TransGen table.Spreads name spread.name.value := by
  cases selection with
  | field field =>
    refine h spread ?_
    rw [Selection.spreadsOfList, Selection.spreads_field]
    exact List.mem_append_left _ hm
  | inline fragment =>
    refine h spread ?_
    rw [Selection.spreadsOfList, Selection.spreads_inline]
    exact List.mem_append_left _ hm
  | spread outer =>
    have houter := h outer (by simp [Selection.spreadsOfList])
    cases hf : table.get? outer.name.value with
    | none => simp [bodyOf, hf, Selection.spreadsOfList] at hm
    | some fragment =>
      rw [bodyOf_of_spread rfl hf] at hm
      exact houter.tail ⟨fragment, hf, spread, hm, rfl⟩

/-- Working on the first selection, which is no field, keeps what was started. -/
theorem Started.enter {selection : Selection} {pending : List Selection} {name : String}
    (h : Started table (selection :: pending) name) (hs : ∀ field, selection ≠ .field field) :
    Started table (bodyOf table selection ++ pending) name := by
  obtain ⟨fragment, inner, outer, hf, hp, hi, hl⟩ := h
  cases inner with
  | nil => exact ⟨fragment, [], _, hf, rfl, hi, hl⟩
  | cons x inner =>
    cases hp
    refine ⟨fragment, bodyOf table selection ++ inner, outer, hf, by simp, ?_, ?_⟩
    · intro h
      obtain ⟨hb, hr⟩ := Fieldless.append_iff.1 h
      exact hi (.cons hs hb hr)
    · intro spread hm
      rw [spreadsOfList_append, List.mem_append] at hm
      rcases hm with hm | hm
      · exact leads_of_mem_bodyOf hl hm
      · exact hl spread (by simp [Selection.spreadsOfList, hm])

/-- So does passing over one without fields. -/
theorem Started.skip {selection : Selection} {pending : List Selection} {name : String}
    (h : Started table (selection :: pending) name) (hs : ∀ field, selection ≠ .field field)
    (hb : Fieldless table (bodyOf table selection)) : Started table pending name := by
  obtain ⟨fragment, inner, outer, hf, hp, hi, hl⟩ := h
  cases inner with
  | nil => exact ⟨fragment, [], _, hf, rfl, hi, by simp [Selection.spreadsOfList]⟩
  | cons x inner =>
    cases hp
    refine ⟨fragment, inner, outer, hf, rfl, fun hr => hi (.cons hs hb hr), ?_⟩
    exact fun spread hm => hl spread (by simp [Selection.spreadsOfList, hm])

/-- A fragment that is entered is started. -/
theorem started_of_get? {spread : FragmentSpread} {fragment : FragmentDefinition}
    (hf : table.get? spread.name.value = some fragment) (pending : List Selection) :
    Started table (bodyOf table (.spread spread) ++ pending) spread.name.value := by
  rw [bodyOf_of_spread rfl hf]
  exact ⟨fragment, _, _, hf, rfl, id, fun inner hm => .single ⟨fragment, hf, inner, hm, rfl⟩⟩

/-- A started fragment that comes first has no fields: the document is acyclic,
so the spread is not in what is left of the fragment, and nothing is left. -/
theorem Started.fieldless (hacyclic : table.Acyclic) {spread : FragmentSpread}
    {pending : List Selection}
    (h : Started table (.spread spread :: pending) spread.name.value) :
    Fieldless table (bodyOf table (.spread spread)) := by
  obtain ⟨fragment, inner, outer, hf, hp, hi, hl⟩ := h
  rw [bodyOf_of_spread rfl hf]
  cases inner with
  | nil => exact hi .nil
  | cons x inner =>
    cases hp
    exact absurd (hl spread (by simp [Selection.spreadsOfList])) (hacyclic _)

/-- There is at most one first field. -/
theorem FirstField.unique {pending : List (Selection × TypeDefinition)}
    {first other : FieldSelection} {parent found : TypeDefinition}
    (h : FirstField schema table pending first parent)
    (h' : FirstField schema table pending other found) : other = first ∧ found = parent := by
  induction h with
  | field =>
    cases h' with
    | field => exact ⟨rfl, rfl⟩
    | fragment hs => exact absurd rfl (hs _)
  | fragment hs hb _ ih =>
    cases h' with
    | field => exact absurd rfl (hs _)
    | fragment _ hb' h' =>
      cases hb.eq_bodyOf
      cases hb'.eq_bodyOf
      cases hb.type_unique hb'
      exact ih h'

/-! ## Collecting on another document -/

/-- A rewrite of selections, each on its type, that keeps what they are and
rewrites what is below them on the type it is made on. The rewritten spreads
are looked up in a table of their own. -/
structure Rewrites (schema : Schema) (table table' : FragmentTable)
    (rewrite : TypeDefinition → Selection → Selection) : Prop where
  field : ∀ parent field, ∃ field', rewrite parent (.field field) = .field field'
  spread : ∀ parent spread, rewrite parent (.spread spread) = .spread spread
  inline : ∀ {parent fragment body type},
    Descends schema table parent (.inline fragment) body type →
    ∃ fragment', rewrite parent (.inline fragment) = .inline fragment' ∧
      fragment'.selections = body.map (rewrite type)
  fragment : ∀ {parent spread body type}, Descends schema table parent (.spread spread) body type →
    ∃ fragment', table'.get? spread.name.value = some fragment' ∧
      fragment'.selections = body.map (rewrite type)

variable {document : Document}

/-- Selections without fields can be put first. -/
theorem FirstField.of_fieldless (hpass : Passable schema document) {selections : List Selection}
    (h : Fieldless (.ofDocument document) selections) {parent found : TypeDefinition}
    {pending : List (Selection × TypeDefinition)} {first : FieldSelection}
    (hr : ∀ selection ∈ selections, Reachable schema document selection parent)
    (hf : FirstField schema (.ofDocument document) pending first found) :
    FirstField schema (.ofDocument document)
      (selections.map (fun selection => (selection, parent)) ++ pending) first found := by
  induction h generalizing parent pending with
  | nil => exact hf
  | @cons selection rest hs _ _ ihb ihr =>
    have hreach := hr selection List.mem_cons_self
    obtain ⟨body, type, hd⟩ := hpass _ _ hreach hs
    refine .fragment hs hd ?_
    cases hd.eq_bodyOf
    refine ihb (fun inner hm => hreach.descend hd hm) ?_
    exact ihr (fun selection hm => hr selection (List.mem_cons_of_mem _ hm)) hf

/-- What the collector still has to do, on a document: the selections are met there, and the
names that it knows were started. -/
structure Collecting (schema : Schema) (document : Document) (visited : List String)
    (pending : List (Selection × TypeDefinition)) : Prop where
  reachable : ∀ made ∈ pending, Reachable schema document made.1 made.2
  started : ∀ name ∈ visited, Started (.ofDocument document) (pending.map Prod.fst) name

namespace Collecting

variable {visited : List String} {selection : Selection} {parent type : TypeDefinition}
  {body : List Selection} {pending : List (Selection × TypeDefinition)}

theorem reachable_enter (h : Collecting schema document visited ((selection, parent) :: pending))
    (hd : Descends schema (.ofDocument document) parent selection body type) :
    ∀ made ∈ body.map (fun inner => (inner, type)) ++ pending,
      Reachable schema document made.1 made.2 := by
  intro made hm
  rcases List.mem_append.1 hm with hm | hm
  · obtain ⟨inner, hi, rfl⟩ := List.mem_map.1 hm
    exact (h.reachable _ List.mem_cons_self).descend hd hi
  · exact h.reachable made (List.mem_cons_of_mem _ hm)

theorem map_fst_enter (hd : Descends schema (.ofDocument document) parent selection body type)
    (pending : List (Selection × TypeDefinition)) :
    (body.map (fun inner => (inner, type)) ++ pending).map Prod.fst =
      bodyOf (.ofDocument document) selection ++ pending.map Prod.fst := by
  simp [Function.comp_def, hd.eq_bodyOf]

/-- A selection is replaced by what it passes on to. -/
theorem enter (h : Collecting schema document visited ((selection, parent) :: pending))
    (hs : ∀ field, selection ≠ .field field)
    (hd : Descends schema (.ofDocument document) parent selection body type) :
    Collecting schema document visited (body.map (fun inner => (inner, type)) ++ pending) := by
  refine ⟨h.reachable_enter hd, fun name hn => ?_⟩
  rw [map_fst_enter hd]
  exact (h.started name hn).enter hs

/-- A fragment that is entered is where its name starts. -/
theorem enter_spread {spread : FragmentSpread} {fragment : FragmentDefinition}
    (h : Collecting schema document visited ((.spread spread, parent) :: pending))
    (hf : (FragmentTable.ofDocument document).get? spread.name.value = some fragment)
    (hd : Descends schema (.ofDocument document) parent (.spread spread) body type) :
    Collecting schema document (spread.name.value :: visited)
      (body.map (fun inner => (inner, type)) ++ pending) := by
  refine ⟨h.reachable_enter hd, fun name hn => ?_⟩
  rw [map_fst_enter hd]
  rcases List.mem_cons.1 hn with rfl | hn
  · exact started_of_get? hf _
  · exact (h.started name hn).enter (by simp)

/-- A selection without fields is passed over. -/
theorem skip (h : Collecting schema document visited ((selection, parent) :: pending))
    (hs : ∀ field, selection ≠ .field field)
    (hb : Fieldless (.ofDocument document) (bodyOf (.ofDocument document) selection)) :
    Collecting schema document visited pending :=
  ⟨fun made hm => h.reachable made (List.mem_cons_of_mem _ hm),
    fun name hn => (h.started name hn).skip hs hb⟩

end Collecting

/-- The first field can be met, and a rewrite makes the prepared field of it. -/
def Prepares (schema : Schema) (document : Document)
    (rewrite : TypeDefinition → Selection → Selection)
    (pending : List (Selection × TypeDefinition)) (prepared : FieldSelection) : Prop :=
  ∃ first parent, FirstField schema (.ofDocument document) pending first parent ∧
    Reachable schema document (.field first) parent ∧
    rewrite parent (.field first) = .field prepared

section Rewrites

variable {table' : FragmentTable} {rewrite : TypeDefinition → Selection → Selection}
  {parent : TypeDefinition} {selection : Selection}

theorem Rewrites.of_field (hw : Rewrites schema (.ofDocument document) table' rewrite)
    (hpass : Passable schema document) (hr : Reachable schema document selection parent)
    {prepared : FieldSelection} (h : rewrite parent selection = .field prepared) :
    ∃ field, selection = .field field := by
  cases selection with
  | field field => exact ⟨field, rfl⟩
  | inline fragment =>
    obtain ⟨body, type, hd⟩ := hpass _ _ hr (by simp)
    obtain ⟨fragment', he, -⟩ := hw.inline hd
    cases he.symm.trans h
  | spread spread => cases (hw.spread parent spread).symm.trans h

theorem Rewrites.of_inline (hw : Rewrites schema (.ofDocument document) table' rewrite)
    (hpass : Passable schema document) (hr : Reachable schema document selection parent)
    {prepared : InlineFragment} (h : rewrite parent selection = .inline prepared) :
    (∀ field, selection ≠ .field field) ∧
      ∃ body type, Descends schema (.ofDocument document) parent selection body type ∧
        prepared.selections = body.map (rewrite type) := by
  cases selection with
  | field field =>
    obtain ⟨field', he⟩ := hw.field parent field
    cases he.symm.trans h
  | inline fragment =>
    obtain ⟨body, type, hd⟩ := hpass _ _ hr (by simp)
    obtain ⟨fragment', he, hb⟩ := hw.inline hd
    cases he.symm.trans h
    exact ⟨by simp, body, type, hd, hb⟩
  | spread spread => cases (hw.spread parent spread).symm.trans h

theorem Rewrites.of_spread (hw : Rewrites schema (.ofDocument document) table' rewrite)
    (hpass : Passable schema document) (hr : Reachable schema document selection parent)
    {spread : FragmentSpread} (h : rewrite parent selection = .spread spread) :
    selection = .spread spread ∧ ∃ body type fragment fragment',
      (FragmentTable.ofDocument document).get? spread.name.value = some fragment ∧
      Descends schema (.ofDocument document) parent selection body type ∧
      table'.get? spread.name.value = some fragment' ∧
      fragment'.selections = body.map (rewrite type) := by
  cases selection with
  | field field =>
    obtain ⟨field', he⟩ := hw.field parent field
    cases he.symm.trans h
  | inline fragment =>
    obtain ⟨body, type, hd⟩ := hpass _ _ hr (by simp)
    obtain ⟨fragment', he, -⟩ := hw.inline hd
    cases he.symm.trans h
  | spread other =>
    cases (hw.spread parent other).symm.trans h
    obtain ⟨body, type, hd⟩ := hpass _ _ hr (by simp)
    obtain ⟨fragment', hf', hb⟩ := hw.fragment hd
    have hd' := hd
    cases hd' with
    | conditioned hc =>
      cases hc with
      | spread hf => exact ⟨rfl, _, type, _, fragment', hf, hd, hf', hb⟩

theorem Prepares.enter {type : TypeDefinition} {body : List Selection}
    {pending : List (Selection × TypeDefinition)} {prepared : FieldSelection}
    (hs : ∀ field, selection ≠ .field field)
    (hd : Descends schema (.ofDocument document) parent selection body type)
    (h : Prepares schema document rewrite (body.map (fun inner => (inner, type)) ++ pending)
      prepared) : Prepares schema document rewrite ((selection, parent) :: pending) prepared := by
  obtain ⟨first, found, hf, hfound, he⟩ := h
  exact ⟨first, found, .fragment hs hd hf, hfound, he⟩

/-- The first field behind a selection without fields is also the first with it. -/
theorem Prepares.of_fieldless {type : TypeDefinition} {body : List Selection}
    {pending : List (Selection × TypeDefinition)} {prepared : FieldSelection}
    (hpass : Passable schema document) (hr : Reachable schema document selection parent)
    (hs : ∀ field, selection ≠ .field field)
    (hd : Descends schema (.ofDocument document) parent selection body type)
    (hb : Fieldless (.ofDocument document) (bodyOf (.ofDocument document) selection))
    (h : Prepares schema document rewrite pending prepared) :
    Prepares schema document rewrite ((selection, parent) :: pending) prepared := by
  obtain ⟨first, found, hf, hfound, he⟩ := h
  have behind := FirstField.of_fieldless hpass (hd.eq_bodyOf ▸ hb)
    (fun inner hi => hr.descend hd hi) hf
  exact ⟨first, found, .fragment hs hd behind, hfound, he⟩

variable {visited : List String} {pending : List (Selection × TypeDefinition)}
  {prepared : FieldSelection} {others : List FieldSelection}

/-- **The collector's first field is the first field**, also where it works on
rewritten selections. -/
theorem exists_firstField (hpass : Passable schema document) (hacyclic : document.Acyclic)
    (hw : Rewrites schema (.ofDocument document) table' rewrite)
    (hc : Collecting schema document visited pending)
    (h : rootSelections table' visited (pending.map fun made => rewrite made.2 made.1) =
      prepared :: others) : Prepares schema document rewrite pending prepared := by
  -- by the recursion of the collector, on what it is left with
  generalize hp : (pending.map fun made => rewrite made.2 made.1) = selections at h
  induction visited, selections using rootSelections.induct table' generalizing pending with
  | case1 => simp [rootSelections] at h
  | case2 visited field rest =>
    obtain ⟨⟨selection, parent⟩, pending, rfl, he, -⟩ := List.map_eq_cons_iff.1 hp
    have hr := hc.reachable _ List.mem_cons_self
    rw [rootSelections] at h
    cases h
    obtain ⟨first, rfl⟩ := hw.of_field hpass hr he
    exact ⟨first, parent, .field, hr, he⟩
  | case3 visited fragment rest ih =>
    obtain ⟨⟨selection, parent⟩, pending, rfl, he, hrest⟩ := List.map_eq_cons_iff.1 hp
    rw [rootSelections] at h
    obtain ⟨hs, body, type, hd, hb⟩ := hw.of_inline hpass (hc.reachable _ List.mem_cons_self) he
    exact .enter hs hd (ih (hc.enter hs hd) (by simp [hb, ← hrest]) h)
  | case4 visited spread rest hm ih =>
    obtain ⟨⟨selection, parent⟩, pending, rfl, he, hrest⟩ := List.map_eq_cons_iff.1 hp
    have hr := hc.reachable _ List.mem_cons_self
    rw [rootSelections_spread, if_pos hm] at h
    obtain ⟨rfl, body, type, -, -, -, hd, -, -⟩ := hw.of_spread hpass hr he
    -- the collector passes over the spread, and loses nothing by it
    have hless := (hc.started _ hm).fieldless hacyclic
    exact .of_fieldless hpass hr (by simp) hd hless (ih (hc.skip (by simp) hless) hrest h)
  | case5 visited spread rest hm hn ih =>
    obtain ⟨⟨selection, parent⟩, pending, rfl, he, hrest⟩ := List.map_eq_cons_iff.1 hp
    obtain ⟨rfl, _, _, _, _, -, -, hf', -⟩ :=
      hw.of_spread hpass (hc.reachable _ List.mem_cons_self) he
    cases hn.symm.trans hf'
  | case6 visited spread rest hm found hf' _ ih =>
    obtain ⟨⟨selection, parent⟩, pending, rfl, he, hrest⟩ := List.map_eq_cons_iff.1 hp
    obtain ⟨rfl, body, type, fragment, fragment', hf, hd, hg, hb⟩ :=
      hw.of_spread hpass (hc.reachable _ List.mem_cons_self) he
    cases hf'.symm.trans hg
    rw [rootSelections_spread, if_neg hm, hf'] at h
    exact .enter (by simp) hd (ih (hc.enter_spread hf hd) (by simp [hb, ← hrest]) h)

end Rewrites

end GraphQL.Subscription
