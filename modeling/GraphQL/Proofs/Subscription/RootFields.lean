import GraphQL.Proofs.Document.Place
import GraphQL.Proofs.Fragment.Spread
import GraphQL.Proofs.Listed
import GraphQL.Subscription.RootField

/-!
# Subscriptions — the fields at the root

Which fields an operation has at its root: those written there, in inline
fragments, and in the fragments of spreads (`AtRoot`). The collector enters every
fragment once. Expanding every spread wherever it occurs, except inside its own
fragment (`expandedFields`), finds more: some fields more than once, in the order
of their places (`MetAt`). Main statement: for the root field this makes no
difference, cyclic fragments included. Both find the same fields, and the same
field first: a fragment that is met again was worked off without a field, or a
field of it came before.
-/

namespace GraphQL

/-- Of the values that are listed the first stands before all others. -/
theorem Listed.first {ι α : Type} [LT ι] {stands : ι → α → Prop} {value : α} {values : List α}
    (ha : ∀ p q : ι, p < q → ¬ q < p) (hl : Listed stands (value :: values)) :
    ∃ place, stands place value ∧ ∀ earlier other, earlier < place → ¬ stands earlier other := by
  obtain ⟨found, hp, hs, hc, hv⟩ := hl
  obtain ⟨entry, later, rfl, rfl, -⟩ := List.map_eq_cons_iff.1 hv
  refine ⟨entry.1, hs entry List.mem_cons_self, ?_⟩
  intro earlier other hlt ho
  obtain ⟨at', hm, rfl⟩ := hc earlier other ho
  rcases List.mem_cons.1 hm with rfl | hm
  · exact ha _ _ hlt hlt
  · exact ha _ _ hlt ((List.pairwise_cons.1 hp).1 at' hm)

namespace Subscription

/-- The field is reached from the selections through inline fragments and spreads
of fragments, whatever their types, and not through other fields. -/
inductive AtRoot (table : FragmentTable) : List Selection → FieldSelection → Prop
  | written {selections : List Selection} {field : FieldSelection}
      (hm : .field field ∈ selections) : AtRoot table selections field
  | inline {selections : List Selection} {fragment : InlineFragment} {field : FieldSelection}
      (hm : .inline fragment ∈ selections) (h : AtRoot table fragment.selections field) :
      AtRoot table selections field
  | spread {selections : List Selection} {spread : FragmentSpread} {fragment : FragmentDefinition}
      {field : FieldSelection} (hm : .spread spread ∈ selections)
      (hf : table.get? spread.name.value = some fragment)
      (h : AtRoot table fragment.selections field) : AtRoot table selections field

/-- The field is met at a place: at a path of indices that leads through inline
fragments and the fragments of spreads, none of which is on the path of names. A
fragment is not entered inside itself, so a place is never behind an endless way. -/
inductive MetAt (table : FragmentTable) :
    List String → List Selection → List Nat → FieldSelection → Prop
  | field {path : List String} {selections : List Selection} {i : Nat} {field : FieldSelection}
      (hi : selections[i]? = some (.field field)) : MetAt table path selections [i] field
  | inline {path : List String} {selections : List Selection} {i : Nat}
      {fragment : InlineFragment} {place : List Nat} {field : FieldSelection}
      (hi : selections[i]? = some (.inline fragment))
      (h : MetAt table path fragment.selections place field) :
      MetAt table path selections (i :: place) field
  | spread {path : List String} {selections : List Selection} {i : Nat} {spread : FragmentSpread}
      {fragment : FragmentDefinition} {place : List Nat} {field : FieldSelection}
      (hi : selections[i]? = some (.spread spread))
      (hf : table.get? spread.name.value = some fragment) (hp : spread.name.value ∉ path)
      (h : MetAt table (spread.name.value :: path) fragment.selections place field) :
      MetAt table path selections (i :: place) field

/-- The field comes first in depth-first document order: no other place where a
field is met comes before its own. -/
def IsFirst (table : FragmentTable) (selections : List Selection) (first : FieldSelection) : Prop :=
  ∃ place, MetAt table [] selections place first ∧
    ∀ earlier field, earlier < place → ¬ MetAt table [] selections earlier field

/-- The fields of selections with every spread expanded each time it occurs. -/
inductive Unfolds (table : FragmentTable) : List Selection → List FieldSelection → Prop
  | nil : Unfolds table [] []
  | field {field : FieldSelection} {rest : List Selection} {fields : List FieldSelection}
      (h : Unfolds table rest fields) : Unfolds table (.field field :: rest) (field :: fields)
  | inline {fragment : InlineFragment} {rest : List Selection} {inner fields : List FieldSelection}
      (hi : Unfolds table fragment.selections inner) (h : Unfolds table rest fields) :
      Unfolds table (.inline fragment :: rest) (inner ++ fields)
  | undefined {spread : FragmentSpread} {rest : List Selection} {fields : List FieldSelection}
      (hf : table.get? spread.name.value = none) (h : Unfolds table rest fields) :
      Unfolds table (.spread spread :: rest) fields
  | spread {spread : FragmentSpread} {fragment : FragmentDefinition} {rest : List Selection}
      {inner fields : List FieldSelection} (hf : table.get? spread.name.value = some fragment)
      (hi : Unfolds table fragment.selections inner) (h : Unfolds table rest fields) :
      Unfolds table (.spread spread :: rest) (inner ++ fields)

/-- The fields met when every spread is expanded wherever it occurs, except inside
the fragment that it names. The path has the names that are being expanded. -/
def expandedFields (table : FragmentTable) (path : List String) :
    List Selection → List FieldSelection
  | [] => []
  | .field field :: rest => field :: expandedFields table path rest
  | .inline fragment :: rest =>
    have := fragment.sizeOf_selections_lt
    expandedFields table path fragment.selections ++ expandedFields table path rest
  | .spread spread :: rest =>
    if hp : spread.name.value ∈ path then expandedFields table path rest
    else match hf : table.get? spread.name.value with
      | none => expandedFields table path rest
      | some fragment =>
        have := FragmentTable.unvisited_cons_lt hf hp
        expandedFields table (spread.name.value :: path) fragment.selections ++
          expandedFields table path rest
termination_by selections => (table.unvisited path, sizeOf selections)

variable {table : FragmentTable} {path : List String} {spread : FragmentSpread}
  {fragment : FragmentDefinition} {field : FieldSelection} {selections rest : List Selection}

/-! ## Equations at a spread -/

theorem expandedFields_of_mem (hp : spread.name.value ∈ path) :
    expandedFields table path (.spread spread :: rest) = expandedFields table path rest := by
  rw [expandedFields, dif_pos hp]

theorem expandedFields_of_none (hf : table.get? spread.name.value = none) :
    expandedFields table path (.spread spread :: rest) = expandedFields table path rest := by
  rw [expandedFields]
  split
  · rfl
  · split
    · rfl
    · rename_i hg
      cases hf.symm.trans hg

theorem expandedFields_of_some (hp : spread.name.value ∉ path)
    (hf : table.get? spread.name.value = some fragment) :
    expandedFields table path (.spread spread :: rest) =
      expandedFields table (spread.name.value :: path) fragment.selections ++
        expandedFields table path rest := by
  rw [expandedFields, dif_neg hp]
  split
  · rename_i hg
    cases hf.symm.trans hg
  · rename_i hg
    cases hf.symm.trans hg
    rfl

/-- Selections have their fields one by one. -/
theorem expandedFields_cons (selection : Selection) (rest : List Selection) :
    expandedFields table path (selection :: rest) =
      expandedFields table path [selection] ++ expandedFields table path rest := by
  cases selection with
  | field field => simp [expandedFields]
  | inline fragment => simp [expandedFields]
  | spread spread =>
    by_cases hp : spread.name.value ∈ path
    · rw [expandedFields_of_mem hp, expandedFields_of_mem hp, expandedFields, List.nil_append]
    · cases hf : table.get? spread.name.value with
      | none =>
        rw [expandedFields_of_none hf, expandedFields_of_none hf, expandedFields, List.nil_append]
      | some fragment =>
        rw [expandedFields_of_some hp hf, expandedFields_of_some hp hf, List.append_assoc]
        simp [expandedFields]

theorem expandedFields_eq_flatMap (selections : List Selection) :
    expandedFields table path selections =
      selections.flatMap fun selection => expandedFields table path [selection] := by
  induction selections with
  | nil => simp [expandedFields]
  | cons selection rest ih => rw [expandedFields_cons, ih, List.flatMap_cons]

theorem expandedFields_append (selections rest : List Selection) :
    expandedFields table path (selections ++ rest) =
      expandedFields table path selections ++ expandedFields table path rest := by
  rw [expandedFields_eq_flatMap, List.flatMap_append, ← expandedFields_eq_flatMap,
    ← expandedFields_eq_flatMap]

/-! ## Longer paths -/

/-- Along a longer path fewer fields are met. -/
theorem expandedFields_sublist {longer : List String} (h : path ⊆ longer)
    (selections : List Selection) :
    (expandedFields table longer selections).Sublist (expandedFields table path selections) := by
  induction path, selections using expandedFields.induct table generalizing longer with
  | case1 => simp [expandedFields]
  | case2 path field rest ih =>
    rw [expandedFields, expandedFields]
    exact (ih h).cons_cons field
  | case3 path fragment rest _ ihf ih =>
    rw [expandedFields, expandedFields]
    exact (ihf h).append (ih h)
  | case4 path spread rest hp ih =>
    rw [expandedFields_of_mem hp, expandedFields_of_mem (h hp)]
    exact ih h
  | case5 path spread rest _ hf ih =>
    rw [expandedFields_of_none hf, expandedFields_of_none hf]
    exact ih h
  | case6 path spread rest hp fragment hf _ ihf ih =>
    rw [expandedFields_of_some hp hf]
    by_cases hl : spread.name.value ∈ longer
    · rw [expandedFields_of_mem hl]
      exact (ih h).trans (List.sublist_append_right _ _)
    · rw [expandedFields_of_some hl hf]
      exact (ihf (List.cons_subset_cons _ h)).append (ih h)

/-- The order of the names on a path does not matter. -/
theorem expandedFields_swap (name other : String) (selections : List Selection) :
    expandedFields table (name :: other :: path) selections =
      expandedFields table (other :: name :: path) selections := by
  have hs : ∀ name other : String, name :: other :: path ⊆ other :: name :: path := by
    intro name other x hx
    simp only [List.mem_cons] at hx ⊢
    rcases hx with rfl | rfl | hx
    · exact .inr (.inl rfl)
    · exact .inl rfl
    · exact .inr (.inr hx)
  exact (expandedFields_sublist (hs other name) selections).antisymm
    (expandedFields_sublist (hs name other) selections)

/-- A name whose fragment has no field beside those on the path can be put on it. -/
theorem expandedFields_of_fieldless {name : String}
    (hn : ∀ fragment, table.get? name = some fragment →
      expandedFields table (name :: path) fragment.selections = []) (selections : List Selection) :
    expandedFields table (name :: path) selections = expandedFields table path selections := by
  induction path, selections using expandedFields.induct table with
  | case1 => simp [expandedFields]
  | case2 path field rest ih => rw [expandedFields, expandedFields, ih hn]
  | case3 path fragment rest _ ihf ih => rw [expandedFields, expandedFields, ihf hn, ih hn]
  | case4 path spread rest hp ih =>
    rw [expandedFields_of_mem hp, expandedFields_of_mem (List.mem_cons_of_mem _ hp), ih hn]
  | case5 path spread rest _ hf ih =>
    rw [expandedFields_of_none hf, expandedFields_of_none hf, ih hn]
  | case6 path spread rest hp fragment hf _ ihf ih =>
    rw [expandedFields_of_some hp hf]
    by_cases he : spread.name.value = name
    · subst he
      rw [expandedFields_of_mem List.mem_cons_self, hn fragment hf, ih hn, List.nil_append]
    · -- the fragment of the name has no field along the longer path either
      have hlonger : ∀ fragment, table.get? name = some fragment →
          expandedFields table (name :: spread.name.value :: path) fragment.selections = [] := by
        intro other ho
        have hs : (expandedFields table (name :: spread.name.value :: path)
            other.selections).Sublist (expandedFields table (name :: path) other.selections) :=
          expandedFields_sublist (List.cons_subset_cons name (List.subset_cons_self _ path)) _
        rw [hn other ho] at hs
        exact List.sublist_nil.1 hs
      rw [expandedFields_of_some (List.not_mem_cons_of_ne_of_not_mem he hp) hf,
        expandedFields_swap, ihf hlonger, ih hn]

/-- **Nothing is lost by putting a name on the path**: what is met is met without the
name, or in the fragment of the name without it. -/
theorem mem_expandedFields_cons_or (name : String)
    (h : field ∈ expandedFields table path selections) :
    field ∈ expandedFields table (name :: path) selections ∨
      ∃ fragment, table.get? name = some fragment ∧
        field ∈ expandedFields table (name :: path) fragment.selections := by
  induction path, selections using expandedFields.induct table with
  | case1 => simp [expandedFields] at h
  | case2 path other rest ih =>
    rw [expandedFields, List.mem_cons] at h ⊢
    rcases h with rfl | h
    · exact .inl (.inl rfl)
    · exact (ih h).imp_left .inr
  | case3 path inner rest _ ihf ih =>
    rw [expandedFields, List.mem_append] at h ⊢
    rcases h with h | h
    · exact (ihf h).imp_left .inl
    · exact (ih h).imp_left .inr
  | case4 path spread rest hp ih =>
    rw [expandedFields_of_mem hp] at h
    rw [expandedFields_of_mem (List.mem_cons_of_mem _ hp)]
    exact ih h
  | case5 path spread rest _ hf ih =>
    rw [expandedFields_of_none hf] at h ⊢
    exact ih h
  | case6 path spread rest hp fragment hf _ ihf ih =>
    rw [expandedFields_of_some hp hf, List.mem_append] at h
    by_cases he : spread.name.value = name
    · subst he
      rw [expandedFields_of_mem List.mem_cons_self]
      rcases h with h | h
      · exact .inr ⟨fragment, hf, h⟩
      · exact ih h
    · rw [expandedFields_of_some (List.not_mem_cons_of_ne_of_not_mem he hp) hf, List.mem_append,
        expandedFields_swap]
      rcases h with h | h
      · refine (ihf h).imp .inl ?_
        rintro ⟨other, ho, hm⟩
        have hs := List.cons_subset_cons name (List.subset_cons_self spread.name.value path)
        exact ⟨other, ho, (expandedFields_sublist hs _).subset hm⟩
      · exact (ih h).imp_left .inr

/-! ## Entering every fragment once -/

/-- The collector finds the same fields: behind a fragment that it has entered
there is nothing new. -/
theorem mem_rootSelections_iff {visited : List String} {pending : List Selection} :
    field ∈ rootSelections table visited pending ↔
      field ∈ expandedFields table visited pending := by
  induction visited, pending using rootSelections.induct table with
  | case1 => simp [rootSelections, expandedFields]
  | case2 visited other pending ih =>
    rw [rootSelections, expandedFields, List.mem_cons, List.mem_cons, ih]
  | case3 visited inner pending ih =>
    rw [rootSelections, ih, expandedFields_append, expandedFields]
  | case4 visited spread pending hv ih =>
    rw [rootSelections_spread, if_pos hv, ih, expandedFields_of_mem hv]
  | case5 visited spread pending hv hf ih =>
    rw [rootSelections_spread, if_neg hv, hf, Option.elim, ih, expandedFields_of_none hf]
  | case6 visited spread pending hv fragment hf _ ih =>
    rw [rootSelections_spread, if_neg hv, hf, Option.elim, ih, expandedFields_append,
      expandedFields_of_some hv hf, List.mem_append, List.mem_append]
    constructor
    · exact Or.imp_right fun h => (expandedFields_sublist (List.subset_cons_self _ _) _).subset h
    · rintro (h | h)
      · exact .inl h
      · rcases mem_expandedFields_cons_or spread.name.value h with h | ⟨other, ho, h⟩
        · exact .inr h
        · cases hf.symm.trans ho
          exact .inl h

/-- **The collector finds the same field first.** Where it goes on with a name in
what it has visited, either the fragment had a field, which is the first one, or it
had none and the name makes no difference. -/
theorem head?_rootSelections (visited : List String) (pending : List Selection) :
    (rootSelections table visited pending).head? =
      (expandedFields table visited pending).head? := by
  induction visited, pending using rootSelections.induct table with
  | case1 => simp [rootSelections, expandedFields]
  | case2 visited other pending ih =>
    rw [rootSelections, expandedFields, List.head?_cons, List.head?_cons]
  | case3 visited inner pending ih =>
    rw [rootSelections, ih, expandedFields_append, expandedFields]
  | case4 visited spread pending hv ih =>
    rw [rootSelections_spread, if_pos hv, ih, expandedFields_of_mem hv]
  | case5 visited spread pending hv hf ih =>
    rw [rootSelections_spread, if_neg hv, hf, Option.elim, ih, expandedFields_of_none hf]
  | case6 visited spread pending hv fragment hf _ ih =>
    rw [rootSelections_spread, if_neg hv, hf, Option.elim, ih, expandedFields_append,
      expandedFields_of_some hv hf]
    cases he : expandedFields table (spread.name.value :: visited) fragment.selections with
    | cons first others => rfl
    | nil =>
      have hn : ∀ other, table.get? spread.name.value = some other →
          expandedFields table (spread.name.value :: visited) other.selections = [] := by
        intro other ho
        cases hf.symm.trans ho
        exact he
      rw [expandedFields_of_fieldless hn]

/-! ## What is reached -/

theorem AtRoot.cons {selection : Selection} (h : AtRoot table rest field) :
    AtRoot table (selection :: rest) field := by
  cases h with
  | written hm => exact .written (List.mem_cons_of_mem _ hm)
  | inline hm h => exact .inline (List.mem_cons_of_mem _ hm) h
  | spread hm hf h => exact .spread (List.mem_cons_of_mem _ hm) hf h

theorem atRoot_of_mem (h : field ∈ expandedFields table path selections) :
    AtRoot table selections field := by
  induction path, selections using expandedFields.induct table with
  | case1 => simp [expandedFields] at h
  | case2 path other rest ih =>
    rw [expandedFields, List.mem_cons] at h
    rcases h with rfl | h
    · exact .written List.mem_cons_self
    · exact (ih h).cons
  | case3 path inner rest _ ihf ih =>
    rw [expandedFields, List.mem_append] at h
    rcases h with h | h
    · exact .inline List.mem_cons_self (ihf h)
    · exact (ih h).cons
  | case4 path spread rest hp ih =>
    rw [expandedFields_of_mem hp] at h
    exact (ih h).cons
  | case5 path spread rest _ hf ih =>
    rw [expandedFields_of_none hf] at h
    exact (ih h).cons
  | case6 path spread rest hp fragment hf _ ihf ih =>
    rw [expandedFields_of_some hp hf, List.mem_append] at h
    rcases h with h | h
    · exact .spread List.mem_cons_self hf (ihf h)
    · exact (ih h).cons

theorem mem_expandedFields_of_mem {selection : Selection} (hm : selection ∈ selections)
    (h : field ∈ expandedFields table path [selection]) :
    field ∈ expandedFields table path selections := by
  rw [expandedFields_eq_flatMap]
  exact List.mem_flatMap.2 ⟨selection, hm, h⟩

/-- **What is reached is met**: a way through a fragment inside itself can be started
over at the inner one. -/
theorem mem_expandedFields_iff :
    field ∈ expandedFields table [] selections ↔ AtRoot table selections field := by
  refine ⟨atRoot_of_mem, fun h => ?_⟩
  induction h with
  | written hm => exact mem_expandedFields_of_mem hm (by simp [expandedFields])
  | inline hm _ ih =>
    refine mem_expandedFields_of_mem hm ?_
    rw [expandedFields]
    exact List.mem_append_left _ ih
  | @spread selections spread fragment field hm hf _ ih =>
    refine mem_expandedFields_of_mem hm ?_
    rw [expandedFields_of_some List.not_mem_nil hf]
    refine List.mem_append_left _ ?_
    rcases mem_expandedFields_cons_or spread.name.value ih with h | ⟨other, ho, h⟩
    · exact h
    · cases hf.symm.trans ho
      exact h

/-! ## Places -/

/-- What is met in one selection. -/
def MetIn (table : FragmentTable) (path : List String) :
    Selection → List Nat → FieldSelection → Prop
  | .field own, place, field => place = [] ∧ own = field
  | .inline fragment, place, field => MetAt table path fragment.selections place field
  | .spread spread, place, field =>
    spread.name.value ∉ path ∧ ∃ fragment, table.get? spread.name.value = some fragment ∧
      MetAt table (spread.name.value :: path) fragment.selections place field

theorem metAt_iff {place : List Nat} :
    MetAt table path selections place field ↔ ∃ i inner selection, place = i :: inner ∧
      selections[i]? = some selection ∧ MetIn table path selection inner field := by
  constructor
  · intro h
    cases h with
    | field hi => exact ⟨_, [], _, rfl, hi, rfl, rfl⟩
    | inline hi h => exact ⟨_, _, _, rfl, hi, h⟩
    | spread hi hf hp h => exact ⟨_, _, _, rfl, hi, hp, _, hf, h⟩
  · rintro ⟨i, inner, selection, rfl, hi, h⟩
    cases selection with
    | field own =>
      obtain ⟨rfl, rfl⟩ := h
      exact .field hi
    | inline fragment => exact .inline hi h
    | spread spread =>
      obtain ⟨hp, fragment, hf, h⟩ := h
      exact .spread hi hf hp h

theorem MetAt.atRoot {place : List Nat} (h : MetAt table path selections place field) :
    AtRoot table selections field := by
  induction h with
  | field hi => exact .written (List.mem_of_getElem? hi)
  | inline hi _ ih => exact .inline (List.mem_of_getElem? hi) ih
  | spread hi hf _ _ ih => exact .spread (List.mem_of_getElem? hi) hf ih

/-- At a place one field is met at most. -/
theorem MetAt.unique {place : List Nat} {other : FieldSelection}
    (h : MetAt table path selections place field) (h' : MetAt table path selections place other) :
    field = other := by
  induction h generalizing other with
  | field hi =>
    obtain ⟨i, inner, selection, he, hs, h'⟩ := metAt_iff.1 h'
    cases he
    cases hi.symm.trans hs
    exact h'.2
  | inline hi _ ih =>
    obtain ⟨i, inner, selection, he, hs, h'⟩ := metAt_iff.1 h'
    cases he
    cases hi.symm.trans hs
    exact ih h'
  | spread hi hf _ _ ih =>
    obtain ⟨i, inner, selection, he, hs, h'⟩ := metAt_iff.1 h'
    cases he
    cases hi.symm.trans hs
    obtain ⟨-, fragment, hg, h'⟩ := h'
    cases hf.symm.trans hg
    exact ih h'

/-- **The expanded fields are those of all places**, in their order. -/
theorem listed_expandedFields (table : FragmentTable) (path : List String)
    (selections : List Selection) :
    Listed (MetAt table path selections) (expandedFields table path selections) := by
  have each : ∀ selection ∈ selections,
      Listed (MetIn table path selection) (expandedFields table path [selection]) := by
    intro selection hm
    have := List.sizeOf_lt_of_mem hm
    cases selection with
    | field own =>
      have hs : expandedFields table path [.field own] = [own] := by simp [expandedFields]
      rw [hs]
      refine .single ⟨rfl, rfl⟩ ?_
      rintro _ _ ⟨rfl, -⟩
      rfl
    | inline fragment =>
      have : sizeOf fragment.selections < sizeOf (Selection.inline fragment) :=
        (Selection.inline fragment).sizeOf_enclosed_lt
      have hs : expandedFields table path [.inline fragment] =
          expandedFields table path fragment.selections := by simp [expandedFields]
      rw [hs]
      exact listed_expandedFields table path fragment.selections
    | spread spread =>
      by_cases hp : spread.name.value ∈ path
      · rw [expandedFields_of_mem hp, expandedFields]
        exact .nil fun _ _ h => h.1 hp
      cases hf : table.get? spread.name.value with
      | none =>
        rw [expandedFields_of_none hf, expandedFields]
        refine .nil ?_
        rintro _ _ ⟨-, fragment, hg, -⟩
        cases hf.symm.trans hg
      | some fragment =>
        have := FragmentTable.unvisited_cons_lt hf hp
        rw [expandedFields_of_some hp hf, expandedFields, List.append_nil]
        refine (listed_expandedFields table _ fragment.selections).congr fun place field => ?_
        constructor
        · exact fun h => ⟨hp, fragment, hf, h⟩
        · rintro ⟨-, other, hg, h⟩
          cases hf.symm.trans hg
          exact h
  rw [expandedFields_eq_flatMap]
  exact (Listed.flatMap each).congr fun _ _ => metAt_iff.symm
termination_by (table.unvisited path, sizeOf selections)

theorem isFirst_of_head? {first : FieldSelection}
    (h : (expandedFields table [] selections).head? = some first) :
    IsFirst table selections first := by
  have hl := listed_expandedFields table [] selections
  obtain ⟨others, he⟩ := List.head?_eq_some_iff.1 h
  rw [he] at hl
  exact hl.first fun _ _ => List.lt_asymm

theorem IsFirst.atRoot {first : FieldSelection} (h : IsFirst table selections first) :
    AtRoot table selections first := by
  obtain ⟨place, hm, -⟩ := h
  exact hm.atRoot

/-- Only one field comes first. -/
theorem IsFirst.iff_eq {first other : FieldSelection} (h : IsFirst table selections first) :
    IsFirst table selections other ↔ other = first := by
  constructor
  · rintro ⟨place', hm', hn'⟩
    obtain ⟨place, hm, hn⟩ := h
    obtain rfl : place = place' :=
      List.le_antisymm (fun hlt => hn _ _ hlt hm') (fun hlt => hn' _ _ hlt hm)
    exact hm'.unique hm
  · rintro rfl
    exact h

/-! ## Without cycles -/

/-- On an acyclic table no name is met on its path, so nothing is left out. -/
theorem unfolds_expandedFields (hacyclic : table.Acyclic) (ha : table.Ahead path selections) :
    Unfolds table selections (expandedFields table path selections) := by
  induction path, selections using expandedFields.induct table with
  | case1 =>
    rw [expandedFields]
    exact .nil
  | case2 path field rest ih =>
    rw [expandedFields]
    exact .field (ih ha.tail)
  | case3 path fragment rest _ ihf ih =>
    rw [expandedFields]
    exact .inline (ihf ha.inline) (ih ha.tail)
  | case4 path spread rest hp _ => exact absurd hp (ha.not_mem hacyclic)
  | case5 path spread rest _ hf ih =>
    rw [expandedFields_of_none hf]
    exact .undefined hf (ih ha.tail)
  | case6 path spread rest hp fragment hf _ ihf ih =>
    rw [expandedFields_of_some hp hf]
    exact .spread hf (ihf (ha.spread hf)) (ih ha.tail)

/-- Selections have one full expansion at most. -/
theorem Unfolds.unique {fields others : List FieldSelection} (h : Unfolds table selections fields)
    (h' : Unfolds table selections others) : fields = others := by
  induction h generalizing others with
  | nil =>
    cases h'
    rfl
  | field _ ih =>
    cases h' with
    | field h' => rw [ih h']
  | inline _ _ ihi ih =>
    cases h' with
    | inline hi' h' => rw [ihi hi', ih h']
  | undefined hf _ ih =>
    cases h' with
    | undefined _ h' => exact ih h'
    | spread hf' => cases hf.symm.trans hf'
  | spread hf _ _ ihi ih =>
    cases h' with
    | undefined hf' => cases hf.symm.trans hf'
    | spread hf' hi' h' =>
      cases hf.symm.trans hf'
      rw [ihi hi', ih h']

end Subscription

end GraphQL
