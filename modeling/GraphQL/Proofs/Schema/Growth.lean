import GraphQL.Proofs.Schema.Builtins

/-!
# Schemas — growth

A schema grows when it keeps its root types and every type it has, each under
its key and with its kind. A type may gain fields, members, values and
interfaces. A field keeps its type and its arguments; an argument that it gains
must not be required (`FieldDefinition.Grows`). What an interface implements
and what an input object holds is not asked for: no check reads it.

Along growth a look-up that succeeds finds what has grown out of the old
answer, and types that overlap go on doing so. A closed schema, in which every
type that a field or an argument uses is defined, has no unsuccessful look-up
of such a type that growth could turn into a successful one.
-/

namespace GraphQL

/-! ## The relation -/

/-- The field keeps its type and its arguments, and gains none that is required. -/
structure FieldDefinition.Grows (field later : FieldDefinition) : Prop where
  type : later.type = field.type
  arguments : ∀ name input, field.arguments.get? name = some input →
    ∃ kept, later.arguments.get? name = some kept ∧ kept.type = input.type ∧
      kept.default? = input.default?
  added : ∀ name input, field.arguments.get? name = none →
    later.arguments.get? name = some input → input.isRequired = false

/-- Every field is there still, and has grown. -/
def FieldsGrow (fields later : Keyed FieldDefinition) : Prop :=
  ∀ name field, fields.get? name = some field →
    ∃ grown, later.get? name = some grown ∧ field.Grows grown

/-- The type keeps its name and its kind, and all that is in it. -/
inductive TypeDefinition.Grows : TypeDefinition → TypeDefinition → Prop
  | scalar {type later : ScalarType} (hn : later.name = type.name) :
      Grows (.scalar type) (.scalar later)
  | object {type later : ObjectType} (hn : later.name = type.name)
      (hf : FieldsGrow type.fields later.fields) (hi : type.interfaces ⊆ later.interfaces) :
      Grows (.object type) (.object later)
  | interface {type later : InterfaceType} (hn : later.name = type.name)
      (hf : FieldsGrow type.fields later.fields) : Grows (.interface type) (.interface later)
  | union {type later : UnionType} (hn : later.name = type.name)
      (hm : type.members ⊆ later.members) : Grows (.union type) (.union later)
  | enum {type later : EnumType} (hn : later.name = type.name)
      (hv : ∀ value, type.hasValue value = true → later.hasValue value = true) :
      Grows (.enum type) (.enum later)
  | inputObject {type later : InputObjectType} (hn : later.name = type.name) :
      Grows (.inputObject type) (.inputObject later)

/-- The schema keeps the names of its root types, and every type under its key. -/
structure Schema.Grows (schema later : Schema) : Prop where
  roots : ∀ kind, later.rootTypeName kind = schema.rootTypeName kind
  types : ∀ key type, schema.type? key = some type →
    ∃ grown, later.type? key = some grown ∧ type.Grows grown

theorem FieldDefinition.Grows.refl (field : FieldDefinition) : field.Grows field where
  type := rfl
  arguments _ input h := ⟨input, h, rfl, rfl⟩
  added _ _ hn h := by
    rw [hn] at h
    cases h

theorem FieldsGrow.refl (fields : Keyed FieldDefinition) : FieldsGrow fields fields :=
  fun _ field h => ⟨field, h, .refl field⟩

theorem TypeDefinition.Grows.refl (type : TypeDefinition) : type.Grows type := by
  cases type with
  | scalar => exact .scalar rfl
  | object => exact .object rfl (.refl _) (List.Subset.refl _)
  | interface => exact .interface rfl (.refl _)
  | union => exact .union rfl (List.Subset.refl _)
  | enum => exact .enum rfl fun _ h => h
  | inputObject => exact .inputObject rfl

/-- A required argument was there before, and was required. -/
theorem FieldDefinition.Grows.required {field later : FieldDefinition} (h : field.Grows later)
    {name : String} {input : InputValue} (hi : later.arguments.get? name = some input)
    (hr : input.isRequired = true) :
    ∃ before, field.arguments.get? name = some before ∧ before.isRequired = true := by
  cases hb : field.arguments.get? name with
  | none => rw [h.added name input hb hi] at hr; cases hr
  | some before =>
    obtain ⟨kept, hk, ht, hd⟩ := h.arguments name before hb
    cases hi.symm.trans hk
    refine ⟨before, rfl, ?_⟩
    rwa [InputValue.isRequired, ← ht, ← hd]

/-! ## Types -/

namespace TypeDefinition.Grows

variable {type later : TypeDefinition}

theorem name (h : type.Grows later) : later.name = type.name := by
  cases h <;> assumption

theorem hasSubfields (h : type.Grows later) : later.hasSubfields = type.hasSubfields := by
  cases h <;> rfl

theorem ne_union (h : type.Grows later) (hu : ∀ union, later ≠ .union union) :
    ∀ union, type ≠ .union union := by
  rintro union rfl
  cases h
  exact hu _ rfl

/-- A declared field is there still, and has grown. -/
theorem field? (h : type.Grows later) {name : String} {field : FieldDefinition}
    (hf : type.field? name = some field) :
    ∃ grown, later.field? name = some grown ∧ field.Grows grown := by
  cases h with
  | object _ hg => exact hg name field hf
  | interface _ hg => exact hg name field hf
  | scalar => cases hf
  | union => cases hf
  | enum => cases hf
  | inputObject => cases hf

/-- An object type with an interface has it still. -/
theorem implementer? (h : type.Grows later) {interface name : String}
    (hi : Schema.implementer? interface type = some name) :
    Schema.implementer? interface later = some name := by
  cases h with
  | object hn _ hs =>
    simp only [Schema.implementer?, List.contains_iff_mem, Option.ite_none_right_eq_some,
      Option.some.injEq] at hi ⊢
    exact ⟨hs hi.1, hn.trans hi.2⟩
  | interface => cases hi
  | scalar => cases hi
  | union => cases hi
  | enum => cases hi
  | inputObject => cases hi

end TypeDefinition.Grows

/-! ## Schemas -/

namespace Schema

variable {schema later : Schema}

namespace Grows

theorem rootType? (h : schema.Grows later) {kind : OperationKind} {root : TypeDefinition}
    (hr : schema.rootType? kind = some root) :
    ∃ grown, later.rootType? kind = some grown ∧ root.Grows grown := by
  rw [Schema.rootType?, h.roots]
  exact h.types _ _ hr

/-- A field that is found, a meta-field or a declared one, is found in what its parent has grown to. -/
theorem field? (h : schema.Grows later) {parent grown : TypeDefinition} (hp : parent.Grows grown)
    {name : String} {field : FieldDefinition} (hf : schema.field? parent name = some field) :
    ∃ found, later.field? grown name = some found ∧ field.Grows found := by
  rw [Schema.field?, h.roots, hp.name]
  rcases Option.or_eq_some_iff.1 hf with hm | ⟨hn, hd⟩
  · rw [hm, Option.some_or]
    exact ⟨field, rfl, .refl field⟩
  · rw [hn, Option.none_or]
    exact hp.field? hd

/-- The objects that a value of a type can be remain possible. -/
theorem possibleTypes (h : schema.Grows later) {type grown : TypeDefinition}
    (ht : type.Grows grown) : schema.possibleTypes type ⊆ later.possibleTypes grown := by
  intro name hm
  cases ht with
  | object hn => simpa [Schema.possibleTypes, hn] using hm
  | union _ hs => exact hs hm
  | interface hn =>
    simp only [Schema.possibleTypes, List.mem_filterMap, hn] at hm ⊢
    obtain ⟨object, ho, hi⟩ := hm
    obtain ⟨key, hk⟩ := Keyed.exists_get?_of_mem_values ho
    obtain ⟨grown, hg, ht⟩ := h.types key object hk
    exact ⟨grown, Keyed.mem_values_of_get? hg, ht.implementer? hi⟩
  | scalar => cases hm
  | enum => cases hm
  | inputObject => cases hm

/-- Types that overlap go on overlapping. -/
theorem overlap (h : schema.Grows later) {a b a' b' : TypeDefinition} (ha : a.Grows a')
    (hb : b.Grows b') (ho : schema.overlap a b = true) : later.overlap a' b' = true := by
  simp only [Schema.overlap, Bool.or_eq_true, beq_iff_eq, List.any_eq_true,
    List.contains_iff_mem] at ho ⊢
  rcases ho with hn | ⟨name, hm, hc⟩
  · exact .inl (ha.name.trans (hn.trans hb.name.symm))
  · exact .inr ⟨name, h.possibleTypes hb hm, h.possibleTypes ha hc⟩

end Grows

end Schema

/-! ## Ways to grow -/

/-- A field may gain an argument that is not required. -/
theorem FieldDefinition.Grows.withArgument {field : FieldDefinition} {input : InputValue}
    (hn : field.arguments.get? input.name = none) (hr : input.isRequired = false) :
    field.Grows (field.withArgument input) where
  type := rfl
  arguments name before h := by
    refine ⟨before, ?_, rfl, rfl⟩
    rw [FieldDefinition.withArgument, Keyed.get?_insert, if_neg]
    · exact h
    · rintro rfl
      cases hn.symm.trans h
  added name added hb h := by
    rw [FieldDefinition.withArgument, Keyed.get?_insert] at h
    split at h
    · cases h
      exact hr
    · cases hb.symm.trans h

/-- Fields may be replaced by what they have grown to. -/
theorem FieldsGrow.insert {fields later : Keyed FieldDefinition} (h : FieldsGrow fields later)
    {field grown : FieldDefinition} (hf : field.Grows grown) (name : String) :
    FieldsGrow (fields.insert name field) (later.insert name grown) := by
  intro other before hb
  rw [Keyed.get?_insert] at hb ⊢
  split
  · rename_i hn
    rw [if_pos hn] at hb
    cases hb
    exact ⟨grown, rfl, hf⟩
  · rename_i hn
    rw [if_neg hn] at hb
    exact h other before hb

/-- Fields may be added under new names. -/
theorem FieldsGrow.added {fields later : Keyed FieldDefinition} (h : FieldsGrow fields later)
    {name : String} (hn : fields.get? name = none) (field : FieldDefinition) :
    FieldsGrow fields (later.insert name field) := by
  intro other before hb
  rw [Keyed.get?_insert, if_neg]
  · exact h other before hb
  · rintro rfl
    cases hn.symm.trans hb

namespace Schema.Grows

variable {schema later : Schema}

/-- Types may be replaced by what they have grown to. -/
theorem withType (h : schema.Grows later) {type grown : TypeDefinition} (ht : type.Grows grown) :
    (schema.withType type).Grows (later.withType grown) where
  roots := h.roots
  types key before hb := by
    rw [Schema.type?, Schema.withType, Keyed.get?_insert] at hb ⊢
    rw [ht.name]
    split
    · rename_i hk
      rw [if_pos hk] at hb
      cases hb
      exact ⟨grown, rfl, ht⟩
    · rename_i hk
      rw [if_neg hk] at hb
      exact h.types key before hb

/-- Types may be added under new names. -/
theorem added (h : schema.Grows later) {type : TypeDefinition}
    (hn : schema.type? type.name = none) : schema.Grows (later.withType type) where
  roots := h.roots
  types key before hb := by
    rw [Schema.type?, Schema.withType, Keyed.get?_insert, if_neg]
    · exact h.types key before hb
    · rintro rfl
      cases hn.symm.trans hb

/-- A schema that grows may be given the built-in types before and after, unless a
type that is added has the name of one. -/
theorem withBuiltins (h : schema.Grows later)
    (hn : ∀ type ∈ Introspection.builtinTypes, schema.type? type.name = none →
      later.type? type.name = none) : schema.withBuiltins.Grows later.withBuiltins where
  roots kind := by
    have := h.roots kind
    cases kind <;> simpa [Schema.rootTypeName] using this
  types key type ht := by
    rw [type?_withBuiltins] at ht ⊢
    rcases Option.or_eq_some_iff.1 ht with hs | ⟨hs, hf⟩
    · obtain ⟨grown, hg, hy⟩ := h.types key type hs
      exact ⟨grown, by rw [hg, Option.some_or], hy⟩
    · have hk : type.name = key := by simpa using List.find?_some hf
      subst hk
      rw [hn type (List.mem_of_find?_eq_some hf) hs, Option.none_or]
      exact ⟨type, hf, .refl type⟩

end Schema.Grows

/-! ## Closed schemas -/

/-- The types that a field uses: its own and those of its arguments. -/
def FieldDefinition.types (field : FieldDefinition) : List TypeRef :=
  field.type :: field.arguments.values.map InputValue.type

/-- The types that the fields of a type use. -/
def TypeDefinition.fieldTypes (type : TypeDefinition) : List TypeRef :=
  match type.fields? with
  | some fields => fields.values.flatMap FieldDefinition.types
  | none => []

/-- Every type that a field or an argument uses is defined. -/
def Schema.IsClosed (schema : Schema) : Prop :=
  ∀ type ∈ schema.types.values, ∀ used ∈ type.fieldTypes, (schema.type? used.base).isSome

instance (schema : Schema) : Decidable schema.IsClosed :=
  inferInstanceAs (Decidable (∀ type ∈ schema.types.values, ∀ used ∈ type.fieldTypes,
    (schema.type? used.base).isSome = true))

theorem FieldDefinition.mem_types_of_argument {field : FieldDefinition} {name : String}
    {input : InputValue} (h : field.arguments.get? name = some input) : input.type ∈ field.types :=
  List.mem_cons_of_mem _ (List.mem_map_of_mem (Keyed.mem_values_of_get? h))

theorem TypeDefinition.mem_fieldTypes {type : TypeDefinition} {name : String}
    {field : FieldDefinition} (h : type.field? name = some field) {used : TypeRef}
    (hu : used ∈ field.types) : used ∈ type.fieldTypes := by
  obtain ⟨fields, hf, hg⟩ := Option.bind_eq_some_iff.1 h
  rw [TypeDefinition.fieldTypes, hf]
  exact List.mem_flatMap.2 ⟨field, Keyed.mem_values_of_get? hg, hu⟩

/-- The types that the meta-fields use are built in. -/
theorem Introspection.builtin_of_metaField? {name : String} {onQueryRoot : Bool}
    {field : FieldDefinition} (h : metaField? name onQueryRoot = some field) {used : TypeRef}
    (hu : used ∈ field.types) : ∃ type ∈ builtinTypes, type.name = used.base := by
  have builtin : ∀ special ∈ [typenameField, schemaField, typeField], ∀ used ∈ special.types,
      ∃ type ∈ builtinTypes, type.name = used.base := by decide
  refine builtin field ?_ used hu
  simp only [metaField?] at h
  split at h
  · cases h; simp
  · split at h
    · cases h; simp
    · split at h
      · cases h; simp
      · cases h

/-- **In a closed schema with the built-in types**, whatever a field uses that is found on
one of its types is defined, a meta-field included. -/
theorem Schema.IsClosed.exists_type? {schema : Schema} (h : schema.IsClosed)
    (hb : schema.HasBuiltins) {parent : TypeDefinition} (hp : parent ∈ schema.types.values)
    {name : String} {field : FieldDefinition} (hf : schema.field? parent name = some field)
    {used : TypeRef} (hu : used ∈ field.types) : ∃ type, schema.type? used.base = some type := by
  rw [← Option.isSome_iff_exists]
  rcases Option.or_eq_some_iff.1 hf with hm | ⟨-, hd⟩
  · obtain ⟨type, ht, hn⟩ := Introspection.builtin_of_metaField? hm hu
    rw [← hn]
    exact hb type ht
  · exact h parent hp used (TypeDefinition.mem_fieldTypes hd hu)

end GraphQL
