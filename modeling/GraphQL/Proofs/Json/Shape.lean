import GraphQL.Json.Shape
import GraphQL.Keyed
import Mathlib.Data.List.Nodup

/-!
# JSON — what is read off an encoding

A decoder takes an object apart into parts. What it reads off a part depends
only on the value that the members have under a name, so it is said here with
`Keyed.find` alone. A member that no name asks for plays no part. Numbers,
lists and optional values are read as they were written.
-/

namespace GraphQL.Json

variable {α : Type} {names : List String} {members : List (String × Json)} {name : String}
  {encode : α → Json} {decode : Json → Option α}

/-! ## Members of an object -/

/-- An object in which no name stands twice has the fields that are asked for. -/
theorem fields?_object (hd : (members.map Prod.fst).Nodup) :
    fields? names (.object members) = some (names.map fun name => memberPart name members) := by
  rw [fields?, if_pos]
  rw [List.all_eq_true]
  intro name _
  exact decide_eq_true (List.nodup_iff_count_le_one.1 hd name)

theorem map_memberPart (name : String) (members : List (String × Json)) :
    (memberPart name members).map Subtype.val = Keyed.find name members := by
  induction members with
  | nil => rfl
  | cons member members ih =>
    obtain ⟨other, value⟩ := member
    rw [memberPart, Keyed.find]
    split
    · rfl
    · rw [← ih, Option.map_map]
      rfl

theorem memberPart_of_find {value : Json} (h : Keyed.find name members = some value) :
    ∃ hs, memberPart name members = some ⟨value, hs⟩ := by
  rw [← map_memberPart, Option.map_eq_some_iff] at h
  obtain ⟨⟨_, hs⟩, hm, rfl⟩ := h
  exact ⟨hs, hm⟩

@[simp] theorem required?_memberPart :
    required? decode (memberPart name members) = (Keyed.find name members).bind decode := by
  rw [← map_memberPart]
  cases memberPart name members <;> rfl

@[simp] theorem defaulted?_memberPart (missing : α) :
    defaulted? decode missing (memberPart name members) =
      ((Keyed.find name members).map decode).getD (some missing) := by
  rw [← map_memberPart]
  cases memberPart name members <;> rfl

/-- The value that is encoded, or none for a null. -/
def nullable? (decode : Json → Option α) : Json → Option (Option α)
  | .null => some none
  | value => (decode value).map some

@[simp] theorem optional?_memberPart :
    optional? decode (memberPart name members) =
      ((Keyed.find name members).map (nullable? decode)).getD (some none) := by
  rw [← map_memberPart]
  cases memberPart name members with
  | none => rfl
  | some part =>
    obtain ⟨value, _⟩ := part
    cases value <;> rfl

theorem nullable?_eq_some_iff {value : Json} {x : Option α} :
    nullable? decode value = some x ↔
      value = .null ∧ x = none ∨ value ≠ .null ∧ ∃ y, decode value = some y ∧ x = some y := by
  cases value with
  | null => simp [nullable?, eq_comm]
  | _ => simp [nullable?, Option.map_eq_some_iff, @eq_comm _ _ x]

/-! ## Values -/

/-- An optional value is read as it was written, unless it is written as a null. -/
theorem nullable?_ofOption {value : Option α}
    (h : ∀ x ∈ value, encode x ≠ .null ∧ decode (encode x) = some x) :
    nullable? decode (ofOption encode value) = some value := by
  rw [nullable?_eq_some_iff]
  cases value with
  | none => exact .inl ⟨rfl, rfl⟩
  | some x => exact .inr ⟨(h x rfl).1, x, (h x rfl).2, rfl⟩

theorem mapM_map_eq_some {β : Type} {read : β → Option α} {write : α → β} {values : List α}
    (h : ∀ x ∈ values, read (write x) = some x) : (values.map write).mapM read = some values := by
  induction values with
  | nil => rfl
  | cons x values ih =>
    rw [List.map_cons, List.mapM_cons, h x List.mem_cons_self,
      ih fun y hy => h y (List.mem_cons_of_mem _ hy)]
    rfl

/-- A list is read as it was written, item by item. -/
theorem list?_map {values : List α} (h : ∀ x ∈ values, decode (encode x) = some x) :
    list? decode (.array (values.map encode)) = some values :=
  mapM_map_eq_some h

@[simp] theorem uint32?_toNat (n : UInt32) : uint32? (.int n.toNat) = some n := by
  rw [uint32?, if_pos ⟨Int.natCast_nonneg _, Int.ofNat_lt.2 n.toNat_lt⟩, Int.toNat_natCast,
    UInt32.ofNat_toNat]

@[simp] theorem int64?_toInt (n : Int64) : int64? (.int n.toInt) = some n := by
  rw [int64?, if_pos ⟨n.minValue_le_toInt, n.toInt_le⟩, Int64.ofInt_toInt]

theorem float?_ofFloat {x : Float} (h : x.isFinite = true) : float? (.ofFloat x) = some x := by
  rw [ofFloat, if_pos h]
  rfl

/-! ## Complete values -/

theorem completeItems_iff {items : List Json} :
    completeItems items = true ↔ ∀ item ∈ items, item.complete = true := by
  induction items with
  | nil => simp [completeItems]
  | cons item items ih => simp [completeItems, ih]

theorem completeMembers_iff {members : List (String × Json)} :
    completeMembers members = true ↔ ∀ member ∈ members, member.2.complete = true := by
  induction members with
  | nil => simp [completeMembers]
  | cons member members ih => simp [completeMembers, ih]

theorem complete_ofOption {value : Option α} (h : ∀ x ∈ value, (encode x).complete = true) :
    (ofOption encode value).complete = true := by
  cases value with
  | none => rfl
  | some x => exact h x rfl

/-! ## Nesting -/

theorem itemsWithin_eq_self {levels : Nat} {items : List Json}
    (h : ∀ item ∈ items, item.within levels = item) : itemsWithin levels items = items := by
  induction items with
  | nil => rfl
  | cons item items ih =>
    rw [itemsWithin, h item List.mem_cons_self, ih fun i hi => h i (List.mem_cons_of_mem _ hi)]

theorem membersWithin_eq_self {levels : Nat} {members : List (String × Json)}
    (h : ∀ member ∈ members, member.2.within levels = member.2) :
    membersWithin levels members = members := by
  induction members with
  | nil => rfl
  | cons member members ih =>
    rw [membersWithin, h member List.mem_cons_self,
      ih fun m hm => h m (List.mem_cons_of_mem _ hm)]

end GraphQL.Json
