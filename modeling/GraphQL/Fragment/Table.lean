import GraphQL.Document.Basic

/-!
Fragment tables: the fragment definitions of a document, looked up by name.
The first definition of a name counts. Main statement: expanding a fragment
whose name is not on the path yet leaves fewer names to expand, which is why
every walk that follows spreads ends.
-/

namespace GraphQL

/-- The fragment definitions of one document, in document order. -/
structure FragmentTable where
  definitions : List FragmentDefinition

namespace FragmentTable

/-- The table of a document. -/
def ofDocument (document : Document) : FragmentTable := ⟨document.fragments⟩

/-- The first definition of a name. -/
def get? (table : FragmentTable) (name : String) : Option FragmentDefinition :=
  table.definitions.find? fun fragment => fragment.name.value == name

/-- The names of all definitions, a repeated one as often as it is defined. -/
def names (table : FragmentTable) : List String :=
  table.definitions.map fun fragment => fragment.name.value

/-- The number of different names. -/
def size (table : FragmentTable) : Nat := table.names.eraseDups.length

/-- The number of definitions whose names are not on a path. -/
def unvisited (table : FragmentTable) (path : List String) : Nat :=
  table.names.countP fun name => !path.contains name

theorem name_of_get? {table : FragmentTable} {name : String} {fragment : FragmentDefinition}
    (h : table.get? name = some fragment) : fragment.name.value = name := by
  simpa using List.find?_some h

theorem mem_names_of_get? {table : FragmentTable} {name : String} {fragment : FragmentDefinition}
    (h : table.get? name = some fragment) : name ∈ table.names := by
  rw [names, List.mem_map]
  exact ⟨fragment, List.mem_of_find?_eq_some h, name_of_get? h⟩

/-- Among names of which one is new, a longer path leaves fewer. -/
theorem countP_cons_lt {names path : List String} {name : String} (hm : name ∈ names)
    (hp : name ∉ path) :
    (names.countP fun other => !(name :: path).contains other) <
      names.countP fun other => !path.contains other := by
  have hle : ∀ names : List String,
      (names.countP fun other => !(name :: path).contains other) ≤
        names.countP fun other => !path.contains other := by
    intro names
    apply List.countP_mono_left
    intro other _ h
    simp only [List.contains_cons, Bool.not_or, Bool.and_eq_true] at h
    exact h.2
  induction names with
  | nil => cases hm
  | cons other names ih =>
    have hle := hle names
    rw [List.countP_cons, List.countP_cons]
    by_cases h : other = name
    · subst h
      simp [hp]
      simp at hle
      omega
    · have hm : name ∈ names := by
        rcases List.mem_cons.1 hm with rfl | hm
        · exact absurd rfl h
        · exact hm
      have ih := ih hm
      have hc : (name :: path).contains other = path.contains other := by
        simp [h]
      rw [hc]
      omega

/-- Expanding a fragment that is not being expanded yet leaves fewer to expand. -/
theorem unvisited_cons_lt {table : FragmentTable} {path : List String} {name : String}
    {fragment : FragmentDefinition} (h : table.get? name = some fragment) (hp : name ∉ path) :
    table.unvisited (name :: path) < table.unvisited path :=
  countP_cons_lt (mem_names_of_get? h) hp

end FragmentTable

end GraphQL
