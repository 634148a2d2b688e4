/-!
Maps in order of insertion. A key keeps the place of its first insertion, and
no key occurs twice; the order is part of the value.
-/

namespace GraphQL

/-- A map from names, in order of insertion. -/
structure Keyed (α : Type) where
  entries : List (String × α)
  distinct : (entries.map Prod.fst).Nodup

namespace Keyed

variable {α : Type}

/-- The map without entries. -/
def empty : Keyed α := ⟨[], List.nodup_nil⟩

/-- The keys in order. -/
def keys (m : Keyed α) : List String := m.entries.map Prod.fst

/-- The values in order. -/
def values (m : Keyed α) : List α := m.entries.map Prod.snd

/-- The value of a key in a list of entries. -/
def find (key : String) : List (String × α) → Option α
  | [] => none
  | (other, value) :: entries => if key = other then some value else find key entries

/-- The value of a key. -/
def get? (m : Keyed α) (key : String) : Option α := find key m.entries

/-- Replaces the value of a key in its place, or appends the key. -/
def assign (key : String) (value : α) : List (String × α) → List (String × α)
  | [] => [(key, value)]
  | (other, old) :: entries =>
    if key = other then (key, value) :: entries else (other, old) :: assign key value entries

theorem mem_map_assign {key other : String} {value : α} {entries : List (String × α)} :
    other ∈ (assign key value entries).map Prod.fst ↔ other = key ∨ other ∈ entries.map Prod.fst := by
  induction entries with
  | nil => simp [assign]
  | cons entry entries ih =>
    obtain ⟨k, old⟩ := entry
    simp only [assign]
    by_cases h : key = k
    · simp [h]
    · rw [if_neg h, List.map_cons, List.mem_cons, ih, List.map_cons, List.mem_cons]
      grind

theorem nodup_assign {key : String} {value : α} {entries : List (String × α)}
    (h : (entries.map Prod.fst).Nodup) : ((assign key value entries).map Prod.fst).Nodup := by
  induction entries with
  | nil => simp [assign]
  | cons entry entries ih =>
    obtain ⟨k, old⟩ := entry
    rw [List.map_cons, List.nodup_cons] at h
    simp only [assign]
    by_cases hk : key = k
    · subst hk
      simpa using h
    · rw [if_neg hk, List.map_cons, List.nodup_cons]
      refine ⟨?_, ih h.2⟩
      rw [mem_map_assign]
      rintro (rfl | hm)
      · exact hk rfl
      · exact h.1 hm

/-- Gives a key a value; a key that is there already keeps its place. -/
def insert (m : Keyed α) (key : String) (value : α) : Keyed α :=
  ⟨assign key value m.entries, nodup_assign m.distinct⟩

/-- Gives a key a value unless it has one. -/
def insertNew (m : Keyed α) (key : String) (value : α) : Keyed α :=
  if m.get? key = none then m.insert key value else m

/-- The map of some entries, of which the last with a key counts. -/
def ofList (entries : List (String × α)) : Keyed α :=
  entries.foldl (fun m entry => m.insert entry.1 entry.2) empty

theorem find_assign (other key : String) (value : α) (entries : List (String × α)) :
    find other (assign key value entries) = if other = key then some value else find other entries := by
  induction entries with
  | nil => simp [assign, find]
  | cons entry entries ih => simp only [assign]; grind [find]

@[simp] theorem get?_empty (key : String) : (empty : Keyed α).get? key = none := rfl

theorem get?_insert (m : Keyed α) (key : String) (value : α) (other : String) :
    (m.insert key value).get? other = if other = key then some value else m.get? other :=
  find_assign other key value m.entries

theorem find_eq_none_iff {key : String} {entries : List (String × α)} :
    find key entries = none ↔ key ∉ entries.map Prod.fst := by
  induction entries with
  | nil => simp [find]
  | cons entry entries ih => grind [find]

theorem get?_insertNew (m : Keyed α) (key : String) (value : α) (other : String) :
    (m.insertNew key value).get? other =
      if other = key then some ((m.get? key).getD value) else m.get? other := by
  unfold insertNew
  split
  · rename_i h
    rw [get?_insert, h]
    rfl
  · rename_i h
    obtain ⟨old, hold⟩ := Option.ne_none_iff_exists'.1 h
    split
    · subst_vars
      rw [hold]
      rfl
    · rfl

/-- Applies a function to every value. -/
def map {β : Type} (f : α → β) (m : Keyed α) : Keyed β :=
  ⟨m.entries.map fun entry => (entry.1, f entry.2), by
    simpa [List.map_map, Function.comp_def] using m.distinct⟩

end Keyed

end GraphQL
