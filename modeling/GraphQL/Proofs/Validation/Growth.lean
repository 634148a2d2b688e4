import GraphQL.Document.Build
import GraphQL.Proofs.Schema.Growth
import GraphQL.Proofs.Validation.Literal
import GraphQL.Proofs.Validation.Valid

/-!
# Validation — growth keeps documents valid

A document is validated against a schema and against one that it has grown to.
The two walks are compared at one selection: where the earlier schema finds
nothing wrong, the later one does not either (`not_localProblem_of_grows`), and
what the later one passes on to has grown out of what the earlier one passes on
to (`exists_descends_of_grows`). So as long as the earlier walk finds nothing,
all that the later walk reaches has grown out of what the earlier walk reaches
(`Reachable.of_grows`), and a document that is valid stays so.

The earlier schema must be closed and have the built-in types: a type that it
lacks is not looked into, and one defined later could object.
-/

namespace GraphQL.Validation

variable {schema later : Schema} {table : FragmentTable} {document : Document}
  {parent grown : TypeDefinition} {selection : Selection}

/-! ## Literals and arguments -/

/-- At a type that is defined already, growth adds no finding. -/
theorem NamedFinding.of_grows (hg : schema.Grows later) {name : String} {type : TypeDefinition}
    (ht : schema.type? name = some type) {literal : Literal} {finding : Finding}
    (h : NamedFinding later name literal finding) : NamedFinding schema name literal finding := by
  obtain ⟨grown, hl, hk⟩ := hg.types name type ht
  -- an enum or an input object is one after growth as well
  have enum : (∀ enum, later.type? name ≠ some (.enum enum)) →
      ∀ enum, schema.type? name ≠ some (.enum enum) := by
    rintro hn enum he
    cases ht.symm.trans he
    cases hk
    exact hn _ hl
  cases h with
  | unknownValue he hv =>
    cases hl.symm.trans he
    cases hk with
    | enum hn hs =>
      rw [hn]
      refine .unknownValue ht ?_
      exact Bool.eq_false_iff.2 fun hb => Bool.eq_false_iff.1 hv (hs _ hb)
  | nonEnum he hn =>
    cases hl.symm.trans he
    cases hk with
    | enum hs =>
      rw [hs]
      exact .nonEnum ht hn
  | coercion he hn => exact .coercion (enum he) hn
  | wrong he ho hd hi =>
    refine .wrong (enum he) ?_ hd hi
    intro input fields p hf
    cases ht.symm.trans hf
    cases hk
    exact ho _ fields p hl

/-- Whatever is found in a literal after growth was found before. -/
theorem literalFindings_subset (hg : schema.Grows later) {type : TypeRef} {found : TypeDefinition}
    (ht : schema.type? type.base = some found) (literal : Literal) :
    literalFindings later type literal ⊆ literalFindings schema type literal := by
  induction type generalizing literal with
  | named name =>
    cases literal with
    | var v => exact List.Subset.refl _
    | null q => exact List.Subset.refl _
    | _ =>
      rw [literalFindings_named (by simp) (by simp), literalFindings_named (by simp) (by simp)]
      exact fun finding h => mem_namedFindings_iff.2 ((mem_namedFindings_iff.1 h).of_grows hg ht)
  | nonNull inner ih =>
    cases literal with
    | null q => exact List.Subset.refl _
    | _ =>
      rw [literalFindings_nonNull inner (by simp), literalFindings_nonNull inner (by simp)]
      exact ih ht _
  | list item ih =>
    cases literal with
    | null q => exact List.Subset.refl _
    | list items q =>
      intro finding h
      obtain ⟨literal, hm, hf⟩ := List.mem_flatMap.1 h
      exact List.mem_flatMap.2 ⟨literal, hm, ih ht literal hf⟩
    | _ =>
      rw [literalFindings_single item (by simp) (by simp),
        literalFindings_single item (by simp) (by simp)]
      exact ih ht _

/-- Arguments without problems have none after growth: the supplied ones are
declared still, with the same types, and no other one is required. -/
theorem not_argumentProblem_of_grows (hg : schema.Grows later) {field : FieldSelection}
    {definition kept : FieldDefinition} (hd : definition.Grows kept)
    (hu : ∀ used ∈ definition.types, ∃ type, schema.type? used.base = some type)
    (h : ∀ cause p, .problem cause p ∉ argumentFindings schema parent field definition)
    (cause : Problem) (p : Position) :
    .problem cause p ∉ argumentFindings later grown field kept := by
  intro hm
  rcases List.mem_append.1 hm with hm | hm
  · obtain ⟨argument, ha, hm⟩ := List.mem_flatMap.1 hm
    obtain ⟨input, hi, hn⟩ := exists_input h ha
    obtain ⟨same, hs, ht, -⟩ := hd.arguments _ _ hi
    obtain ⟨type, hf⟩ := hu _ (FieldDefinition.mem_types_of_argument hi)
    simp only [suppliedFindings, hs, ht] at hm
    exact hn cause p (literalFindings_subset hg hf _ hm)
  · obtain ⟨⟨name, input⟩, hi, hm⟩ := List.mem_flatMap.1 hm
    simp only [missingFindings, List.mem_ite_nil_right, Bool.and_eq_true, Bool.not_eq_true',
      List.mem_singleton] at hm
    obtain ⟨⟨hr, hw⟩, -⟩ := hm
    obtain ⟨before, hb, hr⟩ := hd.required (Keyed.get?_eq_some_iff.2 hi) hr
    obtain ⟨argument, ha, hn⟩ := exists_argument h (Keyed.get?_eq_some_iff.1 hb) hr
    rw [List.any_eq_false] at hw
    exact hw argument ha (by simpa using hn)

/-! ## One selection -/

/-- What a parent admits, it admits after growth. -/
theorem Admits.of_grows {type type' : TypeDefinition} (ha : Admits parent type)
    (hp : parent.Grows grown) (ht : type.Grows type') : Admits grown type' := by
  rintro union rfl
  cases hp with
  | union hn hm =>
    rw [ht.name]
    have h := ha _ rfl
    simp only [UnionType.hasMember, List.contains_iff_mem] at h ⊢
    exact hm h

/-- The condition of a fragment without a local problem is a type that fits its
parent, before and after growth. -/
theorem Conditioned.exists_types_of_grows {name : Option String} {condition : String}
    {p : Position} {body : List Selection}
    (hs : Conditioned table selection name condition p body) (hg : schema.Grows later)
    (hp : parent.Grows grown)
    (hn : ∀ cause p, ¬ LocalProblem schema table parent selection cause p) :
    ∃ type type', schema.type? condition = some type ∧ later.type? condition = some type' ∧
      type.Grows type' ∧ Admits parent type ∧
      ((∀ union, grown ≠ .union union) → later.overlap type' grown = true) := by
  obtain ⟨type, ht, ha, ho⟩ := hs.exists_type? hn
  obtain ⟨type', ht', hy⟩ := hg.types _ _ ht
  exact ⟨type, type', ht, ht', hy, ha, fun hu => hg.overlap hy hp (ho (hp.ne_union hu))⟩

section Selection

variable (hg : schema.Grows later) (hb : schema.HasBuiltins) (hc : schema.IsClosed)
  (hm : parent ∈ schema.types.values) (hp : parent.Grows grown)

include hg hp

theorem exists_field_of_grows {field : FieldSelection}
    (hn : ∀ cause p, ¬ LocalProblem schema table parent (.field field) cause p) :
    ∃ definition kept, schema.field? parent field.name.value = some definition ∧
      later.field? grown field.name.value = some kept ∧ definition.Grows kept := by
  cases hf : schema.field? parent field.name.value with
  | none => exact absurd (.unknownField hf) (hn _ _)
  | some definition =>
    obtain ⟨kept, hk, hd⟩ := hg.field? hp hf
    exact ⟨definition, kept, rfl, hk, hd⟩

include hb hc hm

/-- A field that is found after growth, at a selection without a local problem,
was found before, and so was its type. -/
theorem exists_fieldType_of_grows {field : FieldSelection} {kept : FieldDefinition}
    (hn : ∀ cause p, ¬ LocalProblem schema table parent (.field field) cause p)
    (hk : later.field? grown field.name.value = some kept) :
    ∃ definition type type', schema.field? parent field.name.value = some definition ∧
      definition.Grows kept ∧ schema.type? definition.type.base = some type ∧
      later.type? kept.type.base = some type' ∧ type.Grows type' := by
  obtain ⟨definition, _, hd, hl, hs⟩ := exists_field_of_grows hg hp hn
  cases hk.symm.trans hl
  obtain ⟨type, ht⟩ := hc.exists_type? hb hm hd List.mem_cons_self
  obtain ⟨type', ht', hy⟩ := hg.types _ _ ht
  exact ⟨definition, type, type', hd, hs, ht, by rwa [hs.type], hy⟩

/-- **Where nothing is wrong, nothing is wrong after growth.** -/
theorem not_localProblem_of_grows
    (hn : ∀ cause p, ¬ LocalProblem schema table parent selection cause p)
    (cause : Problem) (p : Position) : ¬ LocalProblem later table grown selection cause p := by
  intro hl
  cases hl with
  | unknownField hf =>
    obtain ⟨_, _, -, hk, -⟩ := exists_field_of_grows hg hp hn
    cases hf.symm.trans hk
  | argument hf ha =>
    obtain ⟨definition, _, _, hd, hs, -⟩ := exists_fieldType_of_grows hg hb hc hm hp hn hf
    exact not_argumentProblem_of_grows hg hs (fun _ hu => hc.exists_type? hb hm hd hu)
      (fun cause p ha => hn cause p (.argument hd ha)) cause p ha
  | missingSelection hf ht hs he =>
    obtain ⟨_, _, _, hd, -, hy, ht', hg⟩ := exists_fieldType_of_grows hg hb hc hm hp hn hf
    cases ht.symm.trans ht'
    exact hn _ _ (.missingSelection hd hy (hg.hasSubfields.symm.trans hs) he)
  | forbiddenSelection hf ht hs he =>
    obtain ⟨_, _, _, hd, -, hy, ht', hg⟩ := exists_fieldType_of_grows hg hb hc hm hp hn hf
    cases ht.symm.trans ht'
    exact hn _ _ (.forbiddenSelection hd hy (hg.hasSubfields.symm.trans hs) he)
  | unknownType hs ht =>
    obtain ⟨_, _, -, ht', -⟩ := hs.exists_types_of_grows hg hp hn
    cases ht.symm.trans ht'
  | noOverlap hs ht hu ho =>
    obtain ⟨_, _, -, ht', -, -, hv⟩ := hs.exists_types_of_grows hg hp hn
    cases ht.symm.trans ht'
    rw [hv hu] at ho
    cases ho
  | notMember hs ht hu hh =>
    obtain ⟨_, _, -, ht', hy, ha, -⟩ := hs.exists_types_of_grows hg hp hn
    cases ht.symm.trans ht'
    rw [ha.of_grows hp hy _ hu] at hh
    cases hh

/-- **Where nothing is wrong, what is passed on to after growth** has grown out
of what is passed on to before. -/
theorem exists_descends_of_grows
    (hn : ∀ cause p, ¬ LocalProblem schema table parent selection cause p)
    {body : List Selection} {type' : TypeDefinition}
    (hd : Descends later table grown selection body type') :
    ∃ type, Descends schema table parent selection body type ∧ type.Grows type' := by
  cases hd with
  | field hf ht hs =>
    obtain ⟨_, type, _, hd, -, hy, ht', hg⟩ := exists_fieldType_of_grows hg hb hc hm hp hn hf
    cases ht.symm.trans ht'
    exact ⟨type, .field hd hy (hg.hasSubfields.symm.trans hs), hg⟩
  | bare hf => exact ⟨parent, .bare hf, hp⟩
  | conditioned hs ht ha =>
    obtain ⟨type, _, hy, ht', hg, ha, -⟩ := hs.exists_types_of_grows hg hp hn
    cases ht.symm.trans ht'
    exact ⟨type, .conditioned hs hy ha, hg⟩

end Selection

/-! ## The whole walk -/

/-- What is reached is reached on a type of the schema. -/
theorem Reachable.mem_types (h : Reachable schema document selection parent) :
    parent ∈ schema.types.values := by
  induction h with
  | root _ hr => exact Keyed.mem_values_of_get? hr
  | descend _ hd _ ih =>
    cases hd with
    | field _ ht => exact Keyed.mem_values_of_get? ht
    | bare => exact ih
    | conditioned _ ht => exact Keyed.mem_values_of_get? ht

/-- **Whatever the walk reaches after growth** has grown out of what it reaches before,
if it finds nothing wrong before. -/
theorem Reachable.of_grows (hg : schema.Grows later) (hb : schema.HasBuiltins)
    (hc : schema.IsClosed) (h : (schema.validate document).diagnostics = [])
    (hr : Reachable later document selection grown) :
    ∃ parent, Reachable schema document selection parent ∧ parent.Grows grown := by
  induction hr with
  | root ho hl hs =>
    obtain ⟨root, hr⟩ := exists_rootType h ho
    obtain ⟨_, hl', ht⟩ := hg.rootType? hr
    cases hl.symm.trans hl'
    exact ⟨root, .root ho hr hs, ht⟩
  | descend _ hd hs ih =>
    obtain ⟨parent, hr, hp⟩ := ih
    obtain ⟨type, hd, ht⟩ :=
      exists_descends_of_grows hg hb hc hr.mem_types hp (not_localProblem h hr) hd
    exact ⟨type, hr.descend hd hs, ht⟩

/-- **Growth keeps documents valid**: what is valid against a closed schema with the
built-in types is valid against every schema that it grows to. -/
theorem diagnostics_eq_nil_of_grows (hg : schema.Grows later) (hb : schema.HasBuiltins)
    (hc : schema.IsClosed) (document : Document)
    (h : (schema.validate document).diagnostics = []) :
    (later.validate document).diagnostics = [] := by
  rw [List.eq_nil_iff_forall_not_mem]
  intro diagnostic hd
  obtain ⟨cause, p, hf, -⟩ := mem_diagnostics_iff.1 hd
  rcases (mem_documentFindings_iff (by simp [IsCut])).1 hf with
    ⟨operation, ho, hn, -⟩ | ⟨selection, grown, hr, hs⟩
  · obtain ⟨root, hr⟩ := exists_rootType h ho
    obtain ⟨_, hl, -⟩ := hg.rootType? hr
    cases hn.symm.trans hl
  · obtain ⟨parent, hr, hp⟩ := hr.of_grows hg hb hc h
    exact not_localProblem_of_grows hg hb hc hr.mem_types hp (not_localProblem h hr) cause p
      (problem_mem_selectionStep_iff.1 hs)

/-- A field whose argument is an enum. -/
def petField : FieldDefinition :=
  (FieldDefinition.ofType "pet" (.named "Pet")).withArgument (.ofType "kind" (.named "Kind"))

/-- The field `name`. -/
def nameField : FieldDefinition := .ofType "name" (.named "String")

/-- An interface. -/
def petType : TypeDefinition := .interface ((InterfaceType.named "Pet").withField nameField)

/-- A schema with an interface and one object type that has it. -/
def petTypes : Schema :=
  Schema.empty
    |>.withType (.object ((ObjectType.named "Query").withField petField))
    |>.withType petType
    |>.withType (.object ((ObjectType.named "Dog").withInterface "Pet"))
    |>.withType (.enum (.ofList "Kind" ["DOG"]))

/-- The field with one more argument. -/
def petFieldByAge : FieldDefinition := petField.withArgument (.ofType "age" (.named "Int"))

/-- The object type with one more interface and one more field. -/
def namedDog : ObjectType :=
  (((ObjectType.named "Dog").withInterface "Pet").withInterface "Animal").withField nameField

/-- The schema with an argument, an interface, a field, a value and a type more. -/
def morePetTypes : Schema :=
  Schema.empty
    |>.withType (.object ((ObjectType.named "Query").withField petFieldByAge))
    |>.withType petType
    |>.withType (.object namedDog)
    |>.withType (.enum (.ofList "Kind" ["CAT", "DOG"]))
    |>.withType (.object ((ObjectType.named "Cat").withInterface "Pet"))

/-- A query with an enum value for an argument, and with a fragment on an object
type under an interface. -/
def petQuery : Document :=
  ⟨[.operation (.ofList .query
    [.field (((FieldSelection.named "pet").withArgument "kind" (.enum (.bare "DOG"))).selecting
      [.field (.named "name"), .inline (.ofList (some "Dog") [.field (.named "__typename")])])])]⟩

theorem petTypes_grows : petTypes.Grows morePetTypes := by
  have empty : Schema.empty.Grows Schema.empty :=
    ⟨fun _ => rfl, fun _ _ h => by cases h⟩
  have query : (TypeDefinition.object ((ObjectType.named "Query").withField petField)).Grows
      (.object ((ObjectType.named "Query").withField petFieldByAge)) :=
    .object rfl ((FieldsGrow.refl _).insert (.withArgument (by decide) (by decide)) _)
      (List.Subset.refl _)
  have dog : (TypeDefinition.object ((ObjectType.named "Dog").withInterface "Pet")).Grows
      (.object namedDog) :=
    .object rfl ((FieldsGrow.refl _).added rfl _) (by decide)
  have kind : (TypeDefinition.enum (.ofList "Kind" ["DOG"])).Grows
      (.enum (.ofList "Kind" ["CAT", "DOG"])) :=
    .enum rfl fun value h => by simp_all [EnumType.hasValue, EnumType.ofList, EnumValue.named]
  exact ((((empty.withType query).withType (.refl petType)).withType dog).withType kind).added
    (by decide)

/-- The query is valid against the schema and against the grown one. -/
theorem petQuery_valid_grown :
    petTypes.withBuiltins.Grows morePetTypes.withBuiltins ∧
      petTypes.withBuiltins.HasBuiltins ∧ petTypes.withBuiltins.IsClosed ∧
      (petTypes.withBuiltins.validate petQuery).diagnostics = [] ∧
      (morePetTypes.withBuiltins.validate petQuery).diagnostics = [] := by
  have grows : petTypes.withBuiltins.Grows morePetTypes.withBuiltins :=
    petTypes_grows.withBuiltins (by decide)
  have closed : petTypes.withBuiltins.IsClosed := by decide +kernel
  have findings : documentFindings petTypes.withBuiltins petQuery = [] := by
    simp only [petQuery, documentFindings_operation, operationFindings, selectionsFindings,
      selectionFindings, Operation.selections_ofList, InlineFragment.selections_ofList,
      FieldSelection.selections_selecting, FieldSelection.selections_named]
    rfl
  have valid : (petTypes.withBuiltins.validate petQuery).diagnostics = [] := by
    rw [Schema.validate, findings]
    rfl
  exact ⟨grows, petTypes.hasBuiltins_withBuiltins, closed, valid,
    diagnostics_eq_nil_of_grows grows petTypes.hasBuiltins_withBuiltins closed petQuery valid⟩

end GraphQL.Validation
