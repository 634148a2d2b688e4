import GraphQL.Keyed
import Mathlib.Data.List.Nodup

/-!
# Maps in order of insertion

What a map is made of, entry by entry. A key has the value that stands beside
it, so a map is its entries and nothing else. Entries with different keys make
up a map as they stand, and items put in under new names come to its end, in
their order; an item whose name has a value already is not put in.
-/

namespace GraphQL.Keyed

variable {α : Type} {m : Keyed α} {key : String} {value : α} {entries : List (String × α)}

theorem ext_entries {other : Keyed α} (h : m.entries = other.entries) : m = other := by
  obtain ⟨entries, _⟩ := m
  obtain ⟨_, _⟩ := other
  cases h
  rfl

/-! ## Looking up -/

theorem mem_of_find (h : find key entries = some value) : (key, value) ∈ entries := by
  induction entries with
  | nil => cases h
  | cons entry entries ih =>
    obtain ⟨other, old⟩ := entry
    rw [find] at h
    split at h
    · rename_i hk
      cases h
      exact hk ▸ List.mem_cons_self
    · exact List.mem_cons_of_mem _ (ih h)

theorem find_of_mem (hd : (entries.map Prod.fst).Nodup) (h : (key, value) ∈ entries) :
    find key entries = some value := by
  induction entries with
  | nil => cases h
  | cons entry entries ih =>
    obtain ⟨other, old⟩ := entry
    rw [List.map_cons, List.nodup_cons] at hd
    rw [find]
    rcases List.mem_cons.1 h with h | h
    · cases h
      exact if_pos rfl
    · rw [if_neg (fun hk => hd.1 (List.mem_map.2 ⟨_, h, hk⟩))]
      exact ih hd.2 h

/-- A key has the value that stands beside it. -/
theorem get?_eq_some_iff : m.get? key = some value ↔ (key, value) ∈ m.entries :=
  ⟨mem_of_find, find_of_mem m.distinct⟩

theorem mem_values_of_get? (h : m.get? key = some value) : value ∈ m.values :=
  List.mem_map.2 ⟨_, get?_eq_some_iff.1 h, rfl⟩

theorem exists_get?_of_mem_values (h : value ∈ m.values) : ∃ key, m.get? key = some value := by
  obtain ⟨⟨key, _⟩, hm, rfl⟩ := List.mem_map.1 h
  exact ⟨key, get?_eq_some_iff.2 hm⟩

/-! ## Putting in -/

/-- A new key comes to the end. -/
theorem assign_of_not_mem (h : key ∉ entries.map Prod.fst) :
    assign key value entries = entries ++ [(key, value)] := by
  induction entries with
  | nil => rfl
  | cons entry entries ih =>
    rw [List.map_cons, List.mem_cons, not_or] at h
    rw [assign, if_neg h.1, ih h.2, List.cons_append]

theorem mem_of_mem_assign {entry : String × α} (h : entry ∈ assign key value entries) :
    entry = (key, value) ∨ entry ∈ entries := by
  induction entries with
  | nil => exact .inl (List.mem_singleton.1 h)
  | cons first entries ih =>
    rw [assign] at h
    split at h
    · exact (List.mem_cons.1 h).imp_right (List.mem_cons_of_mem _)
    · rcases List.mem_cons.1 h with rfl | h
      · exact .inr List.mem_cons_self
      · exact (ih h).imp_right (List.mem_cons_of_mem _)

/-- Entries put into a map that has none of their keys come to its end as they stand. -/
theorem entries_foldl_insert (hd : ((m.entries ++ entries).map Prod.fst).Nodup) :
    (entries.foldl (fun m entry => m.insert entry.1 entry.2) m).entries = m.entries ++ entries := by
  induction entries generalizing m with
  | nil => rw [List.append_nil, List.foldl_nil]
  | cons entry entries ih =>
    have hi : (m.insert entry.1 entry.2).entries = m.entries ++ [entry] := by
      refine assign_of_not_mem fun hm => ?_
      rw [List.map_append, List.nodup_append] at hd
      exact hd.2.2 _ hm _ List.mem_cons_self rfl
    rw [List.foldl_cons, ih (by rwa [hi, List.append_assoc]), hi, List.append_assoc]
    rfl

/-- **Entries with different keys make up a map as they stand.** -/
theorem ofList_of_nodup (hd : (entries.map Prod.fst).Nodup) : ofList entries = ⟨entries, hd⟩ :=
  ext_entries (entries_foldl_insert hd)

theorem ofList_entries (m : Keyed α) : ofList m.entries = m := ofList_of_nodup m.distinct

/-- A map has no entries but those that it is made of. -/
theorem mem_of_mem_ofList {entry : String × α} (h : entry ∈ (ofList entries).entries) :
    entry ∈ entries := by
  -- the same for the entries that are put into any map
  have all : ∀ (entries : List (String × α)) (m : Keyed α),
      entry ∈ (entries.foldl (fun m entry => m.insert entry.1 entry.2) m).entries →
        entry ∈ entries ∨ entry ∈ m.entries := by
    intro entries
    induction entries with
    | nil => exact fun m h => .inr h
    | cons first entries ih =>
      intro m h
      rcases ih _ h with he | hm
      · exact .inl (List.mem_cons_of_mem _ he)
      · rcases mem_of_mem_assign hm with rfl | hm
        · exact .inl List.mem_cons_self
        · exact .inr hm
  rcases all entries empty h with he | hm
  · exact he
  · cases hm

/-! ## Putting in under new names -/

theorem entries_insertNew (m : Keyed α) (key : String) (value : α) :
    (m.insertNew key value).entries =
      if m.get? key = none then m.entries ++ [(key, value)] else m.entries := by
  unfold insertNew
  split
  · rename_i h
    exact assign_of_not_mem (find_eq_none_iff.1 h)
  · rfl

section Items

variable (name : α → String) (items : List α) (m : Keyed α)

/-- Every item put in under its name, unless the name has a value already. -/
def addNew : Keyed α := items.foldl (fun m item => m.insertNew (name item) item) m

/-- A name that has no value gets the first item of that name. -/
theorem get?_addNew (key : String) :
    (addNew name items m).get? key = (m.get? key).or (items.find? fun item => name item == key) := by
  induction items generalizing m with
  | nil => simp [addNew]
  | cons item items ih =>
    rw [addNew, List.foldl_cons]
    refine (ih _).trans ?_
    rw [get?_insertNew]
    by_cases hk : key = name item
    · subst hk
      cases m.get? (name item) <;> simp
    · rw [if_neg hk, List.find?_cons_of_neg (by simpa using fun h => hk h.symm)]

/-- **The items without a value come to the end**, in their order, and what is
there stays as it is. -/
theorem entries_addNew (hd : (items.map name).Nodup) :
    (addNew name items m).entries = m.entries ++
      (items.filter fun item => (m.get? (name item)).isNone).map fun item => (name item, item) := by
  induction items generalizing m with
  | nil => simp [addNew]
  | cons item items ih =>
    rw [List.map_cons, List.nodup_cons] at hd
    -- the names of the later items are found as before
    have hf : (items.filter fun later => ((m.insertNew (name item) item).get? (name later)).isNone) =
        items.filter fun later => (m.get? (name later)).isNone := by
      refine List.filter_congr fun later hl => ?_
      rw [get?_insertNew, if_neg]
      exact fun h => hd.1 (h ▸ List.mem_map_of_mem hl)
    rw [addNew, List.foldl_cons]
    refine (ih _ hd.2).trans ?_
    rw [hf, entries_insertNew]
    cases hg : m.get? (name item) <;> simp [hg]

theorem addNew_eq_self (h : ∀ item ∈ items, (m.get? (name item)).isSome) :
    addNew name items m = m := by
  induction items with
  | nil => rfl
  | cons item items ih =>
    have hi : m.insertNew (name item) item = m := by
      rw [insertNew, if_neg]
      exact Option.isSome_iff_ne_none.1 (h item List.mem_cons_self)
    rw [addNew, List.foldl_cons, hi]
    exact ih fun later hl => h later (List.mem_cons_of_mem _ hl)

end Items

end GraphQL.Keyed
