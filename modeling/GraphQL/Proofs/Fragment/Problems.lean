import GraphQL.Document.Build
import GraphQL.Proofs.Fragment.Cycle
import GraphQL.Proofs.Fragment.Occurrence

/-!
# Fragments — what a report lists

The problems of a document's fragments come in three groups: definitions of a
name that was defined before, spreads of names that no fragment defines, and
names that lead back to themselves. Each group is said by place, without the
functions that compute it: where something is wrong, and with what text. Main
statement: a report has exactly these problems, in the order of their places.

That the search for a way back finds one exactly if there is one needs both
directions. What it finds was reached (`reaches_of_findReturn`); and a way
back, shortened to where it first meets the name, avoids the name until then,
so the search is not cut off on it (`findReturn_ne_none_of_reaches`).
-/

namespace GraphQL

open Relation

namespace FragmentTable

variable {table : FragmentTable} {root : String} {path : List String} {p : Position}
  {selections : List Selection}

/-! ## The search for a way back -/

/-- Soundness: the search ends at a spread of the root that is reached. -/
theorem reaches_of_findReturn {spreads : List FragmentSpread}
    (h : table.findReturn root path spreads = some p)
    (hs : ∀ spread ∈ spreads, Reaches table selections spread) :
    ∃ spread, Reaches table selections spread ∧ spread.name.value = root ∧ spread.pos = p := by
  induction path, spreads using findReturn.induct table root with
  | case1 path => simp [findReturn] at h
  | case2 path spread spreads name hn =>
    rw [findReturn_cons, if_pos hn] at h
    cases h
    exact ⟨spread, hs spread List.mem_cons_self, hn, rfl⟩
  | case3 path spread spreads name hn hp ih =>
    rw [findReturn_cons, if_neg hn, if_pos hp, Option.none_or] at h
    exact ih h fun other hm => hs other (List.mem_cons_of_mem _ hm)
  | case4 path spread spreads name hn hp hf ih =>
    rw [findReturn_cons, if_neg hn, if_neg hp, hf, Option.bind_none, Option.none_or] at h
    exact ih h fun other hm => hs other (List.mem_cons_of_mem _ hm)
  | case5 path spread spreads name hn hp fragment hf _ ihf ih =>
    rw [findReturn_cons, if_neg hn, if_neg hp, hf, Option.bind_some, Option.or_eq_some_iff] at h
    rcases h with h | ⟨-, h⟩
    · refine ihf h fun inner hm => ?_
      obtain ⟨place, hi⟩ := mem_spreadsOfList_iff_spreadAt.1 hm
      exact (hs spread List.mem_cons_self).followed hf hi
    · exact ih h fun other hm => hs other (List.mem_cons_of_mem _ hm)

/-- A way to a name, up to where it first meets the name. -/
theorem avoiding_of_leads {name : String} (h : ReflTransGen table.Spreads name root) :
    ReflTransGen (Avoiding table.Spreads some [root]) name root := by
  induction h using ReflTransGen.head_induction_on with
  | refl => exact .refl
  | @head a _ hstep _ ih =>
    by_cases ha : a = root
    · subst ha
      exact .refl
    · exact .head ⟨hstep, by simpa using ha⟩ ih

/-- Completeness: if a spread of the root is reached, the search ends with a position. -/
theorem findReturn_ne_none_of_reaches {spread : FragmentSpread}
    (h : Reaches table selections spread) (hn : spread.name.value = root) :
    table.findReturn root [root] (Selection.spreadsOfList selections) ≠ none := by
  obtain ⟨first, hm, hl⟩ := h.exists_leads
  rw [hn] at hl
  exact findReturn_ne_none hm (avoiding_of_leads hl)

end FragmentTable

/-- From the body of a fragment definition a spread of its own name is reached. -/
def Returns (table : FragmentTable) (fragment : FragmentDefinition) (spread : FragmentSpread) :
    Prop :=
  Reaches table fragment.selections spread ∧ spread.name.value = fragment.name.value

theorem exists_returns_of_findReturn {table : FragmentTable} {fragment : FragmentDefinition}
    {p : Position} (h : table.findReturn fragment.name.value [fragment.name.value]
      (Selection.spreadsOfList fragment.selections) = some p) :
    ∃ spread, Returns table fragment spread ∧ spread.pos = p := by
  obtain ⟨spread, hr, hn, hp⟩ := FragmentTable.reaches_of_findReturn h fun first hm => by
    obtain ⟨place, hi⟩ := mem_spreadsOfList_iff_spreadAt.1 hm
    exact Reaches.written hi
  exact ⟨spread, ⟨hr, hn⟩, hp⟩

theorem not_returns_of_findReturn {table : FragmentTable} {fragment : FragmentDefinition}
    (h : table.findReturn fragment.name.value [fragment.name.value]
      (Selection.spreadsOfList fragment.selections) = none) (spread : FragmentSpread) :
    ¬ Returns table fragment spread :=
  fun hr => FragmentTable.findReturn_ne_none_of_reaches hr.1 hr.2 h

/-! ## The three groups by place -/

/-- The definition with an index is a fragment definition. -/
def FragmentAt (definitions : List Definition) (d : Nat) (fragment : FragmentDefinition) : Prop :=
  definitions[d]? = some (.fragment fragment)

/-- At an index: a fragment definition whose name a definition before it has. -/
def RepeatedAt (definitions : List Definition) (d : Nat) (diagnostic : Diagnostic) : Prop :=
  ∃ fragment, FragmentAt definitions d fragment ∧
    (∃ e < d, ∃ earlier, FragmentAt definitions e earlier ∧
      earlier.name.value = fragment.name.value) ∧
    diagnostic = .located
      ("There can be only one fragment named \"" ++ fragment.name.value ++ "\".") fragment.name.pos

/-- In a definition of a kind: a spread, at any depth, of a name that no fragment has. -/
def UnknownAt (document : Document) (kind : Definition → Prop) (place : List Nat)
    (diagnostic : Diagnostic) : Prop :=
  ∃ d path definition spread, place = d :: path ∧ document.definitions[d]? = some definition ∧
    kind definition ∧ SpreadAt definition.selections path spread ∧
    (∀ fragment ∈ document.fragments, fragment.name.value ≠ spread.name.value) ∧
    diagnostic = .located ("Unknown fragment \"" ++ spread.name.value ++ "\".") spread.pos

/-- At an index: the first of the definitions of a name from which a spread of
the name is reached. -/
def ReturnsAt (table : FragmentTable) (definitions : List Definition) (d : Nat)
    (diagnostic : Diagnostic) : Prop :=
  ∃ fragment spread, FragmentAt definitions d fragment ∧ Returns table fragment spread ∧
    (∀ e < d, ∀ earlier, FragmentAt definitions e earlier →
      earlier.name.value = fragment.name.value → ∀ other, ¬ Returns table earlier other) ∧
    diagnostic = .located
      ("Cannot spread fragment \"" ++ fragment.name.value ++ "\" within itself.") spread.pos

section

variable {definitions : List Definition} {d : Nat} {fragment : FragmentDefinition}

@[simp] theorem not_fragmentAt_nil : ¬ FragmentAt [] d fragment := by
  simp [FragmentAt]

@[simp] theorem not_fragmentAt_zero (operation : Operation) :
    ¬ FragmentAt (.operation operation :: definitions) 0 fragment := by
  simp [FragmentAt]

@[simp] theorem fragmentAt_zero (first : FragmentDefinition) :
    FragmentAt (.fragment first :: definitions) 0 fragment ↔ first = fragment := by
  simp [FragmentAt]

@[simp] theorem fragmentAt_succ (definition : Definition) :
    FragmentAt (definition :: definitions) (d + 1) fragment ↔ FragmentAt definitions d fragment :=
  Iff.rfl

end

variable {table : FragmentTable} {document : Document}

/-- Along a document, when some names have been defined before it. -/
theorem listed_duplicates (seen : List String) (definitions : List Definition) :
    Listed (fun d diagnostic => ∃ fragment, FragmentAt definitions d fragment ∧
        (fragment.name.value ∈ seen ∨ ∃ e < d, ∃ earlier, FragmentAt definitions e earlier ∧
          earlier.name.value = fragment.name.value) ∧
        diagnostic = FragmentTable.duplicate fragment)
      (FragmentTable.duplicates seen (definitions.filterMap Definition.fragment?)) := by
  induction definitions generalizing seen with
  | nil => exact .nil (by simp)
  | cons definition definitions ih =>
    cases definition with
    | operation operation =>
      show Listed _ ([] ++ FragmentTable.duplicates seen (definitions.filterMap _))
      refine .cons (.nil (by simp)) ((ih seen).congr fun i diagnostic => ?_)
      simp only [Nat.exists_lt_succ_left, fragmentAt_succ]
      simp
    | fragment first =>
      show Listed _ ((if seen.contains first.name.value then [FragmentTable.duplicate first] else [])
        ++ FragmentTable.duplicates (first.name.value :: seen) (definitions.filterMap _))
      refine .cons ?_ ((ih (first.name.value :: seen)).congr fun i diagnostic => ?_)
      · by_cases hm : first.name.value ∈ seen
        · rw [if_pos (List.contains_iff_mem.2 hm)]
          exact .single ⟨rfl, first, rfl, .inl hm, rfl⟩ fun _ _ h => h.1.symm
        · rw [if_neg (by simpa using hm)]
          exact .nil (by simp [hm])
      · -- the name of the first definition has been seen, or stands before the others
        simp only [Nat.exists_lt_succ_left, fragmentAt_succ, fragmentAt_zero]
        simp [or_assoc, or_left_comm, eq_comm]

/-- The definitions of names that were defined before are listed. -/
theorem listed_repeated (document : Document) :
    Listed (RepeatedAt document.definitions) (FragmentTable.duplicates [] document.fragments) :=
  (listed_duplicates [] document.definitions).congr fun d diagnostic => by
    simp [RepeatedAt, FragmentTable.duplicate]

/-- A spread has no fragment if none of the document's fragments has its name. -/
theorem isNone_get?_iff {name : String} :
    ((FragmentTable.ofDocument document).get? name).isNone = true ↔
      ∀ fragment ∈ document.fragments, fragment.name.value ≠ name := by
  simp [FragmentTable.ofDocument, FragmentTable.get?]

theorem listed_unknownSpreads (document : Document) (selections : List Selection) :
    Listed (fun path diagnostic => ∃ spread, (SpreadAt selections path spread ∧
        ∀ fragment ∈ document.fragments, fragment.name.value ≠ spread.name.value) ∧
        diagnostic = FragmentTable.unknown spread)
      ((FragmentTable.ofDocument document).unknownSpreads selections) := by
  have spreads := (Selection.listed_spreadsOfList selections).filter
    (fun spread => ((FragmentTable.ofDocument document).get? spread.name.value).isNone)
    fun _ _ _ h h' => h.unique h'
  exact (spreads.map FragmentTable.unknown).congr fun path diagnostic => by
    simp only [isNone_get?_iff]

/-- The unknown spreads in the definitions of a kind are listed. -/
theorem listed_unknown (document : Document) {α : Type} (part : Definition → Option α)
    (selections : α → List Selection)
    (hs : ∀ definition x, part definition = some x → definition.selections = selections x) :
    Listed (UnknownAt document fun definition => (part definition).isSome = true)
      ((document.definitions.filterMap part).flatMap fun x =>
        (FragmentTable.ofDocument document).unknownSpreads (selections x)) := by
  have each : ∀ definition ∈ document.definitions,
      Listed (fun path diagnostic => (part definition).isSome = true ∧ ∃ spread,
          (SpreadAt definition.selections path spread ∧
            ∀ fragment ∈ document.fragments, fragment.name.value ≠ spread.name.value) ∧
          diagnostic = FragmentTable.unknown spread)
        ((part definition).toList.flatMap fun x =>
          (FragmentTable.ofDocument document).unknownSpreads (selections x)) := by
    intro definition _
    cases hp : part definition with
    | none => exact .nil (by simp)
    | some x =>
      rw [Option.toList_some, List.flatMap_singleton, hs definition x hp]
      exact (listed_unknownSpreads document (selections x)).congr (by simp)
  have joined : (document.definitions.filterMap part).flatMap (fun x =>
        (FragmentTable.ofDocument document).unknownSpreads (selections x)) =
      document.definitions.flatMap fun definition => (part definition).toList.flatMap fun x =>
        (FragmentTable.ofDocument document).unknownSpreads (selections x) := by
    rw [List.filterMap_eq_flatMap_toList, List.flatMap_assoc]
  rw [joined]
  refine (Listed.flatMap each).congr fun place diagnostic => ?_
  constructor
  · rintro ⟨d, path, definition, rfl, hd, hk, spread, ⟨hs, hn⟩, rfl⟩
    exact ⟨d, path, definition, spread, rfl, hd, hk, hs, hn, rfl⟩
  · rintro ⟨d, path, definition, spread, rfl, hd, hk, hs, hn, rfl⟩
    exact ⟨d, path, definition, rfl, hd, hk, spread, ⟨hs, hn⟩, rfl⟩

/-- Along a document, when some names have been reported before it. -/
theorem listed_cycles (reported : List String) (definitions : List Definition) :
    Listed (fun d diagnostic => ∃ fragment spread, FragmentAt definitions d fragment ∧
        Returns table fragment spread ∧ (fragment.name.value ∉ reported ∧
          ∀ e < d, ∀ earlier, FragmentAt definitions e earlier →
            earlier.name.value = fragment.name.value → ∀ other, ¬ Returns table earlier other) ∧
        diagnostic = FragmentTable.cycle fragment.name.value spread.pos)
      (table.cycles reported (definitions.filterMap Definition.fragment?)) := by
  induction definitions generalizing reported with
  | nil => exact .nil (by simp)
  | cons definition definitions ih =>
    cases definition with
    | operation operation =>
      show Listed _ ([] ++ table.cycles reported (definitions.filterMap _))
      refine .cons (.nil (by simp)) ((ih reported).congr fun i diagnostic => ?_)
      simp only [Nat.forall_lt_succ_left, fragmentAt_succ]
      simp
    | fragment first =>
      show Listed _ (table.cycles reported (first :: definitions.filterMap _))
      rw [FragmentTable.cycles]
      by_cases hm : first.name.value ∈ reported
      · -- nothing more is said of a name that was reported
        rw [if_pos (List.contains_iff_mem.2 hm), ← List.nil_append (table.cycles _ _)]
        refine .cons (.nil (by simp [hm])) ((ih reported).congr fun i diagnostic => ?_)
        simp only [fragmentAt_succ, Nat.forall_lt_succ_left, fragmentAt_zero, forall_eq']
        grind
      · rw [if_neg (by simpa using hm)]
        cases hf : table.findReturn first.name.value [first.name.value]
            (Selection.spreadsOfList first.selections) with
        | some p =>
          -- the definition returns, so no later one of its name is the first to do so
          obtain ⟨spread, hr, rfl⟩ := exists_returns_of_findReturn hf
          show Listed _ ([FragmentTable.cycle first.name.value spread.pos] ++
            table.cycles (first.name.value :: reported) (definitions.filterMap _))
          refine .cons ?_ ((ih (first.name.value :: reported)).congr fun i diagnostic => ?_)
          · refine .single ⟨rfl, first, spread, rfl, hr, ⟨hm, ?_⟩, rfl⟩ fun _ _ h => h.1.symm
            simp
          · simp only [fragmentAt_succ, Nat.forall_lt_succ_left, fragmentAt_zero, forall_eq',
              List.mem_cons, not_or]
            grind
        | none =>
          -- a later definition of the name can still be the first to return
          have hr := not_returns_of_findReturn hf
          show Listed _ ([] ++ table.cycles reported (definitions.filterMap _))
          refine .cons (.nil (by simp [hr])) ((ih reported).congr fun i diagnostic => ?_)
          simp only [Nat.forall_lt_succ_left, fragmentAt_succ, fragmentAt_zero]
          simp [hr]

/-- The names that lead back to themselves are listed. -/
theorem listed_returns (document : Document) :
    Listed (ReturnsAt (.ofDocument document) document.definitions)
      ((FragmentTable.ofDocument document).cycles [] document.fragments) :=
  (listed_cycles [] document.definitions).congr fun d diagnostic => by
    simp [ReturnsAt, FragmentTable.cycle]

/-! ## The report -/

/-- **The problems of a document's fragments** are those of three groups, each in
the order of places: the definitions of names that were defined before, the
spreads of unknown names in operations and then in fragments, and for each
name that leads back to itself the first of its definitions that does. -/
theorem fragmentProblems_listed (document : Document) :
    ∃ repeated inOperations inFragments returning,
      document.fragmentProblems = repeated ++ (inOperations ++ inFragments) ++ returning ∧
      Listed (RepeatedAt document.definitions) repeated ∧
      Listed (UnknownAt document fun definition => definition.operation?.isSome = true)
        inOperations ∧
      Listed (UnknownAt document fun definition => definition.fragment?.isSome = true)
        inFragments ∧
      Listed (ReturnsAt (.ofDocument document) document.definitions) returning := by
  refine ⟨_, _, _, _, ?_, listed_repeated document,
    listed_unknown document Definition.operation? Operation.selections ?_,
    listed_unknown document Definition.fragment? FragmentDefinition.selections ?_,
    listed_returns document⟩
  · simp only [Document.fragmentProblems, Document.operations, Document.fragments,
      List.append_assoc]
  · intro definition operation h
    cases definition with
    | operation => cases h; rfl
    | fragment => cases h
  · intro definition fragment h
    cases definition with
    | operation => cases h
    | fragment => cases h; rfl

/-- A name defined twice leads back to itself once, through another name. -/
example : Document.fragmentProblems ⟨[.fragment (.ofList "A" "Query" [.spread (.named "B")]),
    .fragment (.ofList "A" "Query" [.spread (.named "A")]),
    .fragment (.ofList "B" "Query" [.spread (.named "A"), .spread (.named "C")])]⟩ =
    [FragmentTable.duplicate (.ofList "A" "Query" [.spread (.named "A")]),
      FragmentTable.unknown (.named "C"), FragmentTable.cycle "A" .unknown,
      FragmentTable.cycle "B" .unknown] := by cbv

end GraphQL
