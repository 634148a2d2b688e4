import GraphQL.Proofs.Schema.Builtins
import GraphQL.Proofs.Schema.TypeRef
import GraphQL.Schema.Decoding

/-!
# Schemas — references in written form

A decoder reads every reference of a schema off a text, so all of them have a
written form, and those of the built-in types have one as well. Main statement:
so has a schema that is loaded (`Schema.ofText?`).
-/

namespace GraphQL

open Json

/-! ## What a decoder has read -/

section Reading

variable {α β : Type} {whole : Json} {decode : Json → Option α} {x : α}

theorem Json.exists_of_required? {part : Option (Part whole)}
    (h : required? decode part = some x) : ∃ value, decode value = some x := by
  cases part with
  | none => cases h
  | some part => exact ⟨part.val, h⟩

theorem Json.exists_of_defaulted? {missing : α} {part : Option (Part whole)}
    (h : defaulted? decode missing part = some x) :
    x = missing ∨ ∃ value, decode value = some x := by
  cases part with
  | none => exact .inl (Option.some.inj h).symm
  | some part => exact .inr ⟨part.val, h⟩

theorem exists_of_mem_mapM {f : α → Option β} {items : List α} {results : List β}
    (h : items.mapM f = some results) {result : β} (hr : result ∈ results) :
    ∃ item ∈ items, f item = some result := by
  induction items generalizing results with
  | nil =>
    cases Option.some.inj h
    cases hr
  | cons item items ih =>
    simp only [List.mapM_cons, Option.bind_eq_bind, Option.bind_eq_some_iff] at h
    obtain ⟨first, hf, rest, hs, h⟩ := h
    cases h
    rcases List.mem_cons.1 hr with rfl | hr
    · exact ⟨item, List.mem_cons_self, hf⟩
    · obtain ⟨item, hm, hi⟩ := ih hs hr
      exact ⟨item, List.mem_cons_of_mem _ hm, hi⟩

/-- Every value of a map that is decoded has been decoded. -/
theorem Keyed.exists_of_mem_values {value : Json} {m : Keyed α}
    (h : Keyed.ofJson? decode value = some m) (hx : x ∈ m.values) :
    ∃ value, decode value = some x := by
  cases value with
  | object members =>
    obtain ⟨entries, he, rfl⟩ := Option.map_eq_some_iff.1 h
    obtain ⟨entry, hm, rfl⟩ := List.mem_map.1 hx
    obtain ⟨member, -, hd⟩ := exists_of_mem_mapM he (Keyed.mem_of_mem_ofList hm)
    obtain ⟨y, hy, rfl⟩ := Option.map_eq_some_iff.1 hd
    exact ⟨member.2, hy⟩
  | _ => cases h

end Reading

/-! ## References of a definition -/

/-- The type of the input value has a written form. -/
def InputValue.isWritten (input : InputValue) : Bool := input.type.isWritten

/-- The types of the field and of its arguments have a written form. -/
def FieldDefinition.isWritten (field : FieldDefinition) : Bool :=
  field.type.isWritten && field.arguments.values.all InputValue.isWritten

/-- Every reference in the type has a written form. -/
def TypeDefinition.isWritten : TypeDefinition → Bool
  | .object type => type.fields.values.all FieldDefinition.isWritten
  | .interface type => type.fields.values.all FieldDefinition.isWritten
  | .inputObject type => type.fields.values.all InputValue.isWritten
  | _ => true

/-- Every reference in the schema has a written form. -/
def Schema.IsWritten (schema : Schema) : Prop :=
  ∀ type ∈ schema.types.values, type.isWritten = true

/-! ## References that are decoded -/

section Maps

variable {α : Type} {decode : Json → Option α} {written : α → Bool}
  (hd : ∀ {value : Json} {x : α}, decode value = some x → written x = true)

include hd

/-- If whatever is decoded is written, so is every value of a map. -/
theorem Keyed.all_of_ofJson? {value : Json} {m : Keyed α}
    (h : Keyed.ofJson? decode value = some m) : m.values.all written = true := by
  rw [List.all_eq_true]
  intro x hx
  obtain ⟨value, hv⟩ := Keyed.exists_of_mem_values h hx
  exact hd hv

theorem Keyed.all_of_defaulted? {whole : Json} {part : Option (Part whole)} {m : Keyed α}
    (h : defaulted? (Keyed.ofJson? decode) .empty part = some m) :
    m.values.all written = true := by
  rcases exists_of_defaulted? h with rfl | ⟨value, hv⟩
  · rfl
  · exact Keyed.all_of_ofJson? hd hv

end Maps

theorem TypeRef.isWritten_of_ofJson? {value : Json} {type : TypeRef}
    (h : TypeRef.ofJson? value = some type) : type.isWritten = true := by
  obtain ⟨text, -, ht⟩ := Option.bind_eq_some_iff.1 h
  exact TypeRef.isWritten_of_ofText? ht

theorem TypeRef.isWritten_of_required? {whole : Json} {part : Option (Part whole)}
    {type : TypeRef} (h : required? TypeRef.ofJson? part = some type) :
    type.isWritten = true := by
  obtain ⟨value, hv⟩ := exists_of_required? h
  exact TypeRef.isWritten_of_ofJson? hv

theorem InputValue.isWritten_of_ofJson? {value : Json} {input : InputValue}
    (h : InputValue.ofJson? value = some input) : input.isWritten = true := by
  simp only [InputValue.ofJson?, Option.bind_eq_bind, Option.bind_eq_some_iff] at h
  obtain ⟨_, -, h⟩ := h
  split at h
  · simp only [Option.bind_eq_some_iff] at h
    obtain ⟨_, -, _, -, _, ht, _, -, h⟩ := h
    cases h
    exact TypeRef.isWritten_of_required? ht
  · cases h

theorem FieldDefinition.isWritten_of_ofJson? {value : Json} {field : FieldDefinition}
    (h : FieldDefinition.ofJson? value = some field) : field.isWritten = true := by
  simp only [FieldDefinition.ofJson?, Option.bind_eq_bind, Option.bind_eq_some_iff] at h
  obtain ⟨_, -, h⟩ := h
  split at h
  · simp only [Option.bind_eq_some_iff] at h
    obtain ⟨_, -, _, -, _, ht, _, ha, _, -, _, -, h⟩ := h
    cases h
    exact Bool.and_eq_true_iff.2 ⟨TypeRef.isWritten_of_required? ht,
      Keyed.all_of_defaulted? InputValue.isWritten_of_ofJson? ha⟩
  · cases h

namespace TypeDefinition

/-- An object or an interface has the references of its fields. -/
theorem isWritten_of_fielded {value : Json} {type : TypeDefinition}
    (h : objectOfJson? value = some type ∨ interfaceOfJson? value = some type) :
    type.isWritten = true := by
  rcases h with h | h
  all_goals
    simp only [objectOfJson?, interfaceOfJson?, Option.bind_eq_bind,
      Option.bind_eq_some_iff] at h
    obtain ⟨_, -, h⟩ := h
    split at h
    · simp only [Option.bind_eq_some_iff] at h
      obtain ⟨_, -, _, -, _, hf, _, -, h⟩ := h
      cases h
      exact Keyed.all_of_defaulted? FieldDefinition.isWritten_of_ofJson? hf
    · cases h

theorem isWritten_of_inputObjectOfJson? {value : Json} {type : TypeDefinition}
    (h : inputObjectOfJson? value = some type) : type.isWritten = true := by
  simp only [inputObjectOfJson?, Option.bind_eq_bind, Option.bind_eq_some_iff] at h
  obtain ⟨_, -, h⟩ := h
  split at h
  · simp only [Option.bind_eq_some_iff] at h
    obtain ⟨_, -, _, -, _, hf, h⟩ := h
    cases h
    exact Keyed.all_of_defaulted? InputValue.isWritten_of_ofJson? hf
  · cases h

/-- The other types have no references. -/
theorem isWritten_of_fieldless {value : Json} {type : TypeDefinition}
    (h : scalarOfJson? value = some type ∨ unionOfJson? value = some type ∨
      enumOfJson? value = some type) : type.isWritten = true := by
  rcases h with h | h | h
  all_goals
    simp only [scalarOfJson?, unionOfJson?, enumOfJson?, Option.bind_eq_bind,
      Option.bind_eq_some_iff] at h
    obtain ⟨_, -, h⟩ := h
    split at h
    · simp only [Option.bind_eq_some_iff] at h
      grind [isWritten]
    · cases h

theorem isWritten_of_ofJson? {value : Json} {type : TypeDefinition}
    (h : TypeDefinition.ofJson? value = some type) : type.isWritten = true := by
  rw [TypeDefinition.ofJson?] at h
  split at h
  · split at h
    · exact isWritten_of_fieldless (.inl h)
    · exact isWritten_of_fielded (.inl h)
    · exact isWritten_of_fielded (.inr h)
    · exact isWritten_of_fieldless (.inr (.inl h))
    · exact isWritten_of_fieldless (.inr (.inr h))
    · exact isWritten_of_inputObjectOfJson? h
    · cases h
  · cases h

end TypeDefinition

namespace Schema

theorem isWritten_of_ofJson? {value : Json} {schema : Schema}
    (h : Schema.ofJson? value = some schema) : schema.IsWritten := by
  simp only [Schema.ofJson?, Option.bind_eq_bind, Option.bind_eq_some_iff] at h
  obtain ⟨_, -, h⟩ := h
  split at h
  · simp only [Option.bind_eq_some_iff] at h
    obtain ⟨_, -, _, -, _, -, types, ht, h⟩ := h
    cases h
    exact List.all_eq_true.1 (Keyed.all_of_defaulted? TypeDefinition.isWritten_of_ofJson? ht)
  · cases h

/-- The built-in types have no other references. -/
theorem IsWritten.withBuiltins {schema : Schema} (h : schema.IsWritten) :
    schema.withBuiltins.IsWritten := by
  have builtin : ∀ type ∈ Introspection.builtinTypes, type.isWritten = true := by decide
  intro type ht
  rw [Keyed.values, entries_withBuiltins, List.map_append, List.mem_append, List.map_map] at ht
  rcases ht with ht | ht
  · exact h type ht
  · obtain ⟨missing, hm, rfl⟩ := List.mem_map.1 ht
    exact builtin missing (List.mem_filter.1 hm).1

/-- **Every reference of a schema that is loaded** has a written form. -/
theorem isWritten_of_ofText? {text : String} {schema : Schema}
    (h : Schema.ofText? text = some schema) : schema.IsWritten := by
  obtain ⟨decoded, hd, rfl⟩ := Option.map_eq_some_iff.1 h
  obtain ⟨value, -, hd⟩ := Option.bind_eq_some_iff.1 hd
  exact (isWritten_of_ofJson? hd).withBuiltins

end Schema

end GraphQL
