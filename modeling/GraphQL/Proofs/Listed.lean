import Mathlib.Data.List.Basic

/-!
# Lists in the order of places

What it means that a list has one value for every place where something
stands, and has them in the order of the places. The places may be indices,
or paths of indices in lexicographic order, which is the order of a document.
-/

namespace GraphQL

variable {ι κ α β : Type} [LT ι] [LT κ] {stands other : ι → α → Prop} {values : List α}

/-- The values stand at places that increase along the list, and no place where
something stands is left out. -/
def Listed (stands : ι → α → Prop) (values : List α) : Prop :=
  ∃ found : List (ι × α), found.Pairwise (fun a b => a.1 < b.1) ∧
    (∀ entry ∈ found, stands entry.1 entry.2) ∧
    (∀ place value, stands place value → ∃ entry ∈ found, entry.1 = place) ∧
    found.map Prod.snd = values

namespace Listed

theorem nil (h : ∀ place value, ¬ stands place value) : Listed stands [] :=
  ⟨[], .nil, by simp, fun place value hs => absurd hs (h place value), rfl⟩

theorem single {place : ι} {value : α} (h : stands place value)
    (hu : ∀ place' value', stands place' value' → place = place') : Listed stands [value] := by
  refine ⟨[(place, value)], List.pairwise_singleton _ _, ?_, ?_, rfl⟩
  · intro entry hm
    cases List.mem_singleton.1 hm
    exact h
  · exact fun place' value' hs => ⟨_, List.mem_singleton.2 rfl, hu place' value' hs⟩

theorem congr (hl : Listed stands values)
    (h : ∀ place value, stands place value ↔ other place value) : Listed other values := by
  obtain rfl : stands = other := by
    funext place value
    exact propext (h place value)
  exact hl

/-- What stands at all places of the first list's kind is listed before the rest. -/
theorem append {first second : List α} (hf : Listed stands first) (hs : Listed other second)
    (h : ∀ p v q w, stands p v → other q w → p < q) :
    Listed (fun place value => stands place value ∨ other place value) (first ++ second) := by
  obtain ⟨xs, hx, hxs, hxc, rfl⟩ := hf
  obtain ⟨ys, hy, hys, hyc, rfl⟩ := hs
  refine ⟨xs ++ ys, List.pairwise_append.2 ⟨hx, hy, ?_⟩, ?_, ?_, List.map_append⟩
  · exact fun a ha b hb => h _ _ _ _ (hxs a ha) (hys b hb)
  · intro entry hm
    rcases List.mem_append.1 hm with hm | hm
    · exact .inl (hxs entry hm)
    · exact .inr (hys entry hm)
  · rintro place value (hp | hp)
    · obtain ⟨entry, hm, he⟩ := hxc place value hp
      exact ⟨entry, List.mem_append_left _ hm, he⟩
    · obtain ⟨entry, hm, he⟩ := hyc place value hp
      exact ⟨entry, List.mem_append_right _ hm, he⟩

/-- Places may be moved, as long as their order stays. -/
theorem move (hl : Listed stands values) (e : ι → κ) (he : ∀ p q, p < q → e p < e q) :
    Listed (fun place value => ∃ p, place = e p ∧ stands p value) values := by
  obtain ⟨found, hp, hs, hc, rfl⟩ := hl
  refine ⟨found.map fun entry => (e entry.1, entry.2), ?_, ?_, ?_, by simp⟩
  · exact hp.map _ fun a b h => he _ _ h
  · intro entry hm
    obtain ⟨moved, hf, rfl⟩ := List.mem_map.1 hm
    exact ⟨_, rfl, hs moved hf⟩
  · rintro _ value ⟨p, rfl, hv⟩
    obtain ⟨entry, hm, rfl⟩ := hc p value hv
    exact ⟨_, List.mem_map_of_mem hm, rfl⟩

/-- Of values that are determined by their places some may be left out. -/
theorem filter (hl : Listed stands values) (p : α → Bool)
    (hu : ∀ place value value', stands place value → stands place value' → value = value') :
    Listed (fun place value => stands place value ∧ p value = true) (values.filter p) := by
  obtain ⟨found, hp, hs, hc, rfl⟩ := hl
  refine ⟨found.filter fun entry => p entry.2, hp.filter _, ?_, ?_, by rw [List.filter_map]; rfl⟩
  · intro entry hm
    rw [List.mem_filter] at hm
    exact ⟨hs entry hm.1, hm.2⟩
  · rintro place value ⟨hv, ht⟩
    obtain ⟨entry, hm, rfl⟩ := hc place value hv
    obtain rfl := hu _ _ _ (hs entry hm) hv
    exact ⟨entry, List.mem_filter.2 ⟨hm, ht⟩, rfl⟩

theorem map (hl : Listed stands values) (f : α → β) :
    Listed (fun place value => ∃ v, stands place v ∧ value = f v) (values.map f) := by
  obtain ⟨found, hp, hs, hc, rfl⟩ := hl
  refine ⟨found.map fun entry => (entry.1, f entry.2), ?_, ?_, ?_, by simp⟩
  · exact hp.map _ fun a b h => h
  · intro entry hm
    obtain ⟨mapped, hf, rfl⟩ := List.mem_map.1 hm
    exact ⟨_, hs mapped hf, rfl⟩
  · rintro place _ ⟨v, hv, rfl⟩
    obtain ⟨entry, hm, rfl⟩ := hc place v hv
    exact ⟨_, List.mem_map_of_mem hm, rfl⟩

/-- Values that are determined by their places are listed if they stand anywhere. -/
theorem mem_iff (hl : Listed stands values)
    (hu : ∀ place value value', stands place value → stands place value' → value = value')
    {value : α} : value ∈ values ↔ ∃ place, stands place value := by
  obtain ⟨found, -, hs, hc, rfl⟩ := hl
  constructor
  · intro hm
    obtain ⟨entry, hf, rfl⟩ := List.mem_map.1 hm
    exact ⟨_, hs entry hf⟩
  · rintro ⟨place, hv⟩
    obtain ⟨entry, hm, rfl⟩ := hc place value hv
    obtain rfl := hu _ _ _ (hs entry hm) hv
    exact List.mem_map_of_mem hm

/-- By index: what stands at the first index comes before what stands further on. -/
theorem cons {stands : Nat → α → Prop} {here rest : List α}
    (hh : Listed (fun i value => i = 0 ∧ stands 0 value) here)
    (hr : Listed (fun i value => stands (i + 1) value) rest) : Listed stands (here ++ rest) := by
  refine (hh.append (hr.move (· + 1) fun p q h => Nat.succ_lt_succ h) ?_).congr ?_
  · rintro _ v _ w ⟨rfl, -⟩ ⟨q, rfl, -⟩
    exact Nat.zero_lt_succ q
  · intro i value
    cases i with
    | zero => simp
    | succ i => simp

/-- By path: what stands below the items of a list, item by item. -/
theorem flatMap {xs : List β} {f : β → List α} {stands : β → List Nat → α → Prop}
    (h : ∀ x ∈ xs, Listed (stands x) (f x)) :
    Listed (fun place value => ∃ i path x, place = i :: path ∧ xs[i]? = some x ∧
      stands x path value) (xs.flatMap f) := by
  induction xs with
  | nil => exact .nil (by simp)
  | cons x xs ih =>
    have first := (h x List.mem_cons_self).move (List.cons 0) fun p q hp =>
      List.cons_lt_cons_iff.2 (.inr ⟨rfl, hp⟩)
    have later := (ih fun y hy => h y (List.mem_cons_of_mem _ hy)).move
      (fun place => place.modifyHead (· + 1)) fun p q hp => by
        cases p <;> cases q <;> simp_all [List.cons_lt_cons_iff]
    rw [List.flatMap_cons]
    refine (first.append later ?_).congr ?_
    · rintro _ v _ w ⟨p, rfl, -⟩ ⟨_, rfl, i, path, y, rfl, -⟩
      exact List.cons_lt_cons_iff.2 (.inl (Nat.zero_lt_succ i))
    · intro place value
      constructor
      · rintro (⟨path, rfl, hs⟩ | ⟨_, rfl, i, path, y, rfl, hi, hs⟩)
        · exact ⟨0, path, x, rfl, rfl, hs⟩
        · exact ⟨i + 1, path, y, rfl, hi, hs⟩
      · rintro ⟨i, path, y, rfl, hi, hs⟩
        cases i with
        | zero =>
          cases hi
          exact .inl ⟨path, rfl, hs⟩
        | succ i => exact .inr ⟨i :: path, rfl, i, path, y, rfl, hi, hs⟩

end Listed

end GraphQL
