import GraphQL.Json.Record

/-!
# Records — the last member with a name counts

What the record of a list of members holds: under every name the value of the
last member with that name, and nothing that is no member.
-/

namespace GraphQL.Record

variable {name : String} {value : Json} {members : List (String × Json)}

/-- What is under a name when members were put in: the value of the last of them with
the name, or what was there before. -/
theorem get?_foldl_put (members : List (String × Json)) (record : Record) :
    (members.foldl (fun record member => record.put member.1 member.2) record).get? name =
      ((members.filter fun member => member.1 == name).getLast?.map Prod.snd).or
        (record.get? name) := by
  induction members generalizing record with
  | nil => rfl
  | cons member members ih =>
    rw [List.foldl_cons, ih, get?_put]
    by_cases h : name = member.1
    · rw [if_pos h, List.filter_cons, if_pos (beq_iff_eq.2 h.symm), List.getLast?_cons]
      cases (members.filter fun member => member.1 == name).getLast? <;> rfl
    · rw [if_neg h, List.filter_cons_of_neg (by simpa using Ne.symm h)]

/-- Under a name is the value of the last member with the name. -/
theorem get?_ofList (members : List (String × Json)) (name : String) :
    (ofList members).get? name =
      (members.filter fun member => member.1 == name).getLast?.map Prod.snd := by
  rw [ofList, get?_foldl_put, get?, Option.or_none]

/-- The last member with a name is found under it. -/
theorem get?_ofList_of_last (before : List (String × Json)) (h : name ∉ members.map Prod.fst) :
    (ofList (before ++ (name, value) :: members)).get? name = some value := by
  have hn : (members.filter fun member => member.1 == name) = [] := by
    rw [List.filter_eq_nil_iff]
    intro member hm he
    exact h (List.mem_map.2 ⟨member, hm, beq_iff_eq.1 he⟩)
  rw [get?_ofList, List.filter_append, List.filter_cons, if_pos (beq_self_eq_true name), hn,
    List.getLast?_concat]
  rfl

theorem mem_of_mem_put {record : Record} {member : String × Json}
    (h : member ∈ record.put name value) : member = (name, value) ∨ member ∈ record := by
  induction record with
  | nil => exact .inl (List.mem_singleton.1 h)
  | cons first record ih =>
    obtain ⟨other, old⟩ := first
    rw [put] at h
    split at h
    · exact (List.mem_cons.1 h).imp_right (List.mem_cons_of_mem _)
    · split at h
      · exact List.mem_cons.1 h
      · rcases List.mem_cons.1 h with rfl | h
        · exact .inr List.mem_cons_self
        · exact (ih h).imp_right (List.mem_cons_of_mem _)

/-- A record has only members that it is made of. -/
theorem mem_of_mem_ofList {member : String × Json} (h : member ∈ ofList members) :
    member ∈ members := by
  have all : ofList members ⊆ members := by
    refine List.foldlRecOn (motive := (· ⊆ members)) members _ (List.nil_subset _) ?_
    intro record hr first hf member hm
    rcases mem_of_mem_put hm with rfl | hm
    · exact hf
    · exact hr hm
  exact all h

/-! ## The order of the names -/

/-- The names stand in order, so none stands twice. -/
def Ordered (record : Record) : Prop := record.Pairwise fun member other => member.1 < other.1

theorem Ordered.put {record : Record} (h : record.Ordered) (name : String) (value : Json) :
    (record.put name value).Ordered := by
  induction record with
  | nil => exact List.pairwise_singleton _ _
  | cons first record ih =>
    obtain ⟨other, old⟩ := first
    obtain ⟨hb, ho⟩ := List.pairwise_cons.1 h
    rw [Record.put]
    split
    · rename_i he
      subst he
      exact List.pairwise_cons.2 ⟨hb, ho⟩
    · rename_i he
      split
      · rename_i hlt
        refine List.pairwise_cons.2 ⟨?_, h⟩
        intro member hm
        rcases List.mem_cons.1 hm with rfl | hm
        · exact hlt
        · exact String.lt_trans hlt (hb member hm)
      · rename_i hlt
        refine List.pairwise_cons.2 ⟨?_, ih ho⟩
        intro member hm
        rcases mem_of_mem_put hm with rfl | hm
        · exact Std.lt_of_le_of_ne (String.not_lt.1 hlt) (Ne.symm he)
        · exact hb member hm

theorem ofList_ordered (members : List (String × Json)) : (ofList members).Ordered :=
  List.foldlRecOn members _ List.Pairwise.nil fun _ h member _ => h.put member.1 member.2

theorem mem_of_get? {record : Record} (h : record.get? name = some value) :
    (name, value) ∈ record := by
  induction record with
  | nil => cases h
  | cons member record ih =>
    rw [get?] at h
    split at h
    · rename_i he
      cases h
      rw [he]
      exact List.mem_cons_self
    · exact List.mem_cons_of_mem _ (ih h)

theorem Ordered.get?_of_mem {record : Record} (ho : record.Ordered) (h : (name, value) ∈ record) :
    record.get? name = some value := by
  induction record with
  | nil => cases h
  | cons member record ih =>
    obtain ⟨hb, ho⟩ := List.pairwise_cons.1 ho
    rcases List.mem_cons.1 h with rfl | h
    · rw [get?, if_pos rfl]
    · have hne : name ≠ member.1 := by
        rintro rfl
        exact String.lt_irrefl member.1 (hb (member.1, value) h)
      rw [get?, if_neg hne, ih ho h]

/-- A record has, of the members it is made of, those whose name is not used behind them. -/
theorem mem_ofList_iff : (name, value) ∈ ofList members ↔
    ∃ before after, members = before ++ (name, value) :: after ∧ name ∉ after.map Prod.fst := by
  constructor
  · intro h
    have found := (ofList_ordered members).get?_of_mem h
    rw [get?_ofList, Option.map_eq_some_iff] at found
    obtain ⟨⟨other, _⟩, hl, rfl⟩ := found
    obtain ⟨kept, hk⟩ := List.getLast?_eq_some_iff.1 hl
    obtain ⟨before, rest, rfl, -, hr⟩ := List.filter_eq_append_iff.1 hk
    obtain ⟨skipped, after, rfl, -, hn, ha⟩ := List.filter_eq_cons_iff.1 hr
    obtain rfl : other = name := beq_iff_eq.1 hn
    refine ⟨before ++ skipped, after, (List.append_assoc _ _ _).symm, ?_⟩
    rw [List.filter_eq_nil_iff] at ha
    intro hm
    obtain ⟨member, hm, he⟩ := List.mem_map.1 hm
    exact ha member hm (beq_iff_eq.2 he)
  · rintro ⟨before, after, rfl, hn⟩
    exact mem_of_get? (get?_ofList_of_last before hn)

/-- Ordered records are equal if they have the same under every name. -/
theorem Ordered.ext {record other : Record} (hr : record.Ordered) (ho : other.Ordered)
    (h : ∀ name, record.get? name = other.get? name) : record = other := by
  have same : ∀ member, member ∈ record ↔ member ∈ other := by
    intro member
    constructor
    · exact fun hm => mem_of_get? ((h member.1).symm.trans (hr.get?_of_mem hm))
    · exact fun hm => mem_of_get? ((h member.1).trans (ho.get?_of_mem hm))
  have distinct : ∀ {record : Record}, record.Ordered → record.Nodup := by
    intro record hr
    refine List.Pairwise.imp ?_ hr
    rintro member _ hlt rfl
    exact String.lt_irrefl _ hlt
  exact List.Perm.eq_of_pairwise (fun _ _ _ _ hlt hgt => (String.lt_asymm hlt hgt).elim) hr ho
    ((List.perm_ext_iff_of_nodup (distinct hr) (distinct ho)).2 same)

end GraphQL.Record
