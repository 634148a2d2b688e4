import GraphQL.Validation.Basic

/-!
# Validation — literals against types

What the check of a literal against a named type finds (`NamedFinding`), and
the leaves of a literal under a type (`Leaf`): the literals in it that stand
against a named type, reached through list literals matched with list types,
where a single value stands for a list of one. A list literal is never
entered without a list type, and an object literal never.
-/

namespace GraphQL.Validation

/-! ## A literal against a named type -/

/-- What is found in a literal, other than a variable or a null, that stands
against a named type. -/
inductive NamedFinding (schema : Schema) (name : String) : Literal → Finding → Prop
  | unknownValue {type : EnumType} {value : Name}
      (ht : schema.type? name = some (.enum type)) (hv : type.hasValue value.value = false) :
      NamedFinding schema name (.enum value)
        (.problem (.unknownEnumValue type.name value.value) value.pos)
  | nonEnum {type : EnumType} {literal : Literal}
      (ht : schema.type? name = some (.enum type)) (hl : ∀ value, literal ≠ .enum value) :
      NamedFinding schema name literal
        (.problem (.nonEnumLiteral type.name literal.plainText) literal.pos)
  | coercion {n : Int64} {p : Position}
      (ht : ∀ type, schema.type? name ≠ some (.enum type)) (hn : name = "Float") :
      NamedFinding schema name (.int n p) (.coercion n p)
  | wrong {literal : Literal} (ht : ∀ type, schema.type? name ≠ some (.enum type))
      (ho : ∀ type fields p, schema.type? name = some (.inputObject type) →
        literal ≠ .object fields p)
      (hk : literal.kindName ≠ name) (hi : name = "Float" → ∀ n p, literal ≠ .int n p) :
      NamedFinding schema name literal (.problem (.wrongLiteral name literal.display) literal.pos)

/-- What is found where a literal's own kind decides. -/
def kindFindings (name : String) (literal : Literal) : List Finding :=
  if literal.kindName = name then []
  else match literal with
    | .int n p =>
      if name = "Float" then [.coercion n p]
      else [.problem (.wrongLiteral name literal.display) p]
    | literal => [.problem (.wrongLiteral name literal.display) literal.pos]

variable {schema : Schema} {name : String} {literal : Literal} {finding : Finding}

theorem namedFindings_of_enum {type : EnumType} (ht : schema.type? name = some (.enum type))
    (hl : ∀ value, literal ≠ .enum value) :
    namedFindings schema name literal =
      [.problem (.nonEnumLiteral type.name literal.plainText) literal.pos] := by
  cases literal with
  | enum value => exact absurd rfl (hl value)
  | _ => simp [namedFindings, ht]

theorem namedFindings_of_inputObject {type : InputObjectType}
    (ht : schema.type? name = some (.inputObject type)) (fields : List (Name × Literal))
    (p : Position) : namedFindings schema name (.object fields p) = [] := by
  simp [namedFindings, ht]

theorem namedFindings_of_kind (ht : ∀ type, schema.type? name ≠ some (.enum type))
    (ho : ∀ type fields p, schema.type? name = some (.inputObject type) →
      literal ≠ .object fields p) :
    namedFindings schema name literal = kindFindings name literal := by
  unfold namedFindings kindFindings
  cases h : schema.type? name with
  | none => cases literal <;> simp [Literal.kindName, eq_comm, Literal.pos]
  | some type =>
    cases type with
    | enum type => exact absurd h (ht type)
    | inputObject type =>
      cases literal with
      | object fields p => exact absurd rfl (ho type fields p h)
      | _ => simp [Literal.kindName, eq_comm, Literal.pos]
    | _ => cases literal <;> simp [Literal.kindName, eq_comm, Literal.pos]

theorem mem_kindFindings_iff :
    finding ∈ kindFindings name literal ↔ literal.kindName ≠ name ∧
      ((name = "Float" ∧ ∃ n p, literal = .int n p ∧ finding = .coercion n p) ∨
        ((name = "Float" → ∀ n p, literal ≠ .int n p) ∧
          finding = .problem (.wrongLiteral name literal.display) literal.pos)) := by
  by_cases hk : literal.kindName = name
  · simp [kindFindings, hk]
  · cases literal with
    | int n p =>
      by_cases hn : name = "Float"
      · subst hn
        simp only [kindFindings, Literal.kindName, String.reduceEq, if_false, if_true]
        grind
      · simp [kindFindings, hk, hn, Literal.pos]
    | _ => simp [kindFindings, hk]

/-- At an enum a literal is one of its values, or there is one finding. -/
theorem mem_enumFindings_iff {type : EnumType} (ht : schema.type? name = some (.enum type)) :
    finding ∈ namedFindings schema name literal ↔ NamedFinding schema name literal finding := by
  by_cases hl : ∃ value, literal = .enum value
  · obtain ⟨value, rfl⟩ := hl
    constructor
    · intro h
      cases hv : type.hasValue value.value with
      | true => simp [namedFindings, ht, hv] at h
      | false =>
        simp only [namedFindings, ht, hv, Bool.false_eq_true, if_false, List.mem_singleton] at h
        subst h
        exact .unknownValue ht hv
    · intro h
      cases h with
      | unknownValue ht' hv =>
        cases ht.symm.trans ht'
        simp [namedFindings, ht, hv]
      | nonEnum _ hl => exact absurd rfl (hl value)
      | wrong hn => exact absurd ht (hn type)
  · have hl : ∀ value, literal ≠ .enum value := fun value h => hl ⟨value, h⟩
    rw [namedFindings_of_enum ht hl, List.mem_singleton]
    constructor
    · rintro rfl
      exact .nonEnum ht hl
    · intro h
      cases h with
      | unknownValue => exact absurd rfl (hl _)
      | nonEnum ht' =>
        cases ht.symm.trans ht'
        rfl
      | coercion hn => exact absurd ht (hn type)
      | wrong hn => exact absurd ht (hn type)

/-- The check of a literal against a named type finds what the cases of
`NamedFinding` say, and nothing else. -/
theorem mem_namedFindings_iff :
    finding ∈ namedFindings schema name literal ↔ NamedFinding schema name literal finding := by
  by_cases he : ∃ type, schema.type? name = some (.enum type)
  · obtain ⟨type, ht⟩ := he
    exact mem_enumFindings_iff ht
  · have ht : ∀ type, schema.type? name ≠ some (.enum type) := fun type h => he ⟨type, h⟩
    by_cases ho : ∀ type fields p, schema.type? name = some (.inputObject type) →
        literal ≠ .object fields p
    · rw [namedFindings_of_kind ht ho, mem_kindFindings_iff]
      constructor
      · rintro ⟨hk, ⟨hn, n, p, rfl, rfl⟩ | ⟨hi, rfl⟩⟩
        · exact .coercion ht hn
        · exact .wrong ht ho hk hi
      · intro h
        cases h with
        | unknownValue ht' => exact absurd ht' (ht _)
        | nonEnum ht' => exact absurd ht' (ht _)
        | coercion _ hn => exact ⟨by simp [Literal.kindName, hn], .inl ⟨hn, _, _, rfl, rfl⟩⟩
        | wrong _ _ hk hi => exact ⟨hk, .inr ⟨hi, rfl⟩⟩
    · have ho : ∃ type fields p, schema.type? name = some (.inputObject type) ∧
          literal = .object fields p := by simpa using ho
      obtain ⟨type, fields, p, hi, rfl⟩ := ho
      rw [namedFindings_of_inputObject hi]
      constructor
      · intro h
        cases h
      · intro h
        cases h with
        | nonEnum ht' => exact absurd ht' (ht _)
        | wrong _ ho => exact absurd rfl (ho type fields p hi)

/-! ## The leaves of a literal under a type -/

/-- Under a type, the items of a literal along a path of indices lead to a
leaf, which stands against a named type. -/
inductive Leaf : TypeRef → Literal → List Nat → String → Literal → Prop
  | named (name : String) (literal : Literal) : Leaf (.named name) literal [] name literal
  | nonNull {inner : TypeRef} {literal leaf : Literal} {path : List Nat} {name : String}
      (h : Leaf inner literal path name leaf) : Leaf (.nonNull inner) literal path name leaf
  | item {item : TypeRef} {items : List Literal} {p : Position} {i : Nat}
      {literal leaf : Literal} {path : List Nat} {name : String}
      (hi : items[i]? = some literal) (h : Leaf item literal path name leaf) :
      Leaf (.list item) (.list items p) (i :: path) name leaf
  | single {item : TypeRef} {literal leaf : Literal} {path : List Nat} {name : String}
      (hs : ∀ items p, literal ≠ .list items p) (h : Leaf item literal path name leaf) :
      Leaf (.list item) literal path name leaf

/-- A null is a leaf under every type, and has no others below it. -/
theorem Leaf.eq_of_null {type : TypeRef} {path : List Nat} {leaf : Literal} {q : Position}
    (h : Leaf type (.null q) path name leaf) : leaf = .null q := by
  generalize hl : Literal.null q = literal at h
  induction h with
  | named => rfl
  | nonNull _ ih => exact ih hl
  | item => cases hl
  | single _ _ ih => exact ih hl

/-! ## The check of a literal, case by case -/

theorem literalFindings_var (type : TypeRef) (v : Name) :
    literalFindings schema type (.var v) = [] := by
  cases type <;> rfl

theorem literalFindings_null (type : TypeRef) (q : Position) :
    literalFindings schema type (.null q) =
      if type.isNonNull then [.problem (.unexpectedNull type) q] else [] := by
  cases type <;> rfl

theorem literalFindings_named (hv : ∀ v, literal ≠ .var v) (hn : ∀ q, literal ≠ .null q) :
    literalFindings schema (.named name) literal = namedFindings schema name literal := by
  cases literal with
  | var v => exact absurd rfl (hv v)
  | null q => exact absurd rfl (hn q)
  | _ => rfl

theorem literalFindings_nonNull (inner : TypeRef) (hn : ∀ q, literal ≠ .null q) :
    literalFindings schema (.nonNull inner) literal = literalFindings schema inner literal := by
  cases literal with
  | var v => rw [literalFindings_var, literalFindings_var]
  | null q => exact absurd rfl (hn q)
  | _ => rfl

theorem literalFindings_items (item : TypeRef) (items : List Literal) (q : Position) :
    literalFindings schema (.list item) (.list items q) =
      items.flatMap (literalFindings schema item) := rfl

theorem literalFindings_single (item : TypeRef) (hn : ∀ q, literal ≠ .null q)
    (hs : ∀ items q, literal ≠ .list items q) :
    literalFindings schema (.list item) literal = literalFindings schema item literal := by
  cases literal with
  | var v => rw [literalFindings_var, literalFindings_var]
  | null q => exact absurd rfl (hn q)
  | list items q => exact absurd rfl (hs items q)
  | _ => rfl

/-- Whatever is found in a literal is a null that is not allowed, or belongs to a leaf. -/
theorem found_in_literal {type : TypeRef} (h : finding ∈ literalFindings schema type literal) :
    (∃ type q, finding = .problem (.unexpectedNull type) q) ∨
      ∃ path name leaf, Leaf type literal path name leaf ∧ NamedFinding schema name leaf finding := by
  induction type generalizing literal with
  | named name =>
    cases literal with
    | var v => simp [literalFindings_var] at h
    | null q => simp [literalFindings_null, TypeRef.isNonNull] at h
    | _ =>
      rw [literalFindings_named (by simp) (by simp)] at h
      exact .inr ⟨[], name, _, .named name _, mem_namedFindings_iff.1 h⟩
  | nonNull inner ih =>
    cases literal with
    | null q => exact .inl ⟨_, q, List.mem_singleton.1 h⟩
    | _ =>
      rw [literalFindings_nonNull inner (by simp)] at h
      rcases ih h with hn | ⟨path, name, leaf, hl, hf⟩
      · exact .inl hn
      · exact .inr ⟨path, name, leaf, .nonNull hl, hf⟩
  | list item ih =>
    cases literal with
    | null q => simp [literalFindings_null, TypeRef.isNonNull] at h
    | list items q =>
      obtain ⟨literal, hm, h⟩ := List.mem_flatMap.1 h
      obtain ⟨i, hi⟩ := List.getElem?_of_mem hm
      rcases ih h with hn | ⟨path, name, leaf, hl, hf⟩
      · exact .inl hn
      · exact .inr ⟨i :: path, name, leaf, .item hi hl, hf⟩
    | _ =>
      rw [literalFindings_single item (by simp) (by simp)] at h
      rcases ih h with hn | ⟨path, name, leaf, hl, hf⟩
      · exact .inl hn
      · exact .inr ⟨path, name, leaf, .single (by simp) hl, hf⟩

/-- Whatever is found in a leaf, other than a variable or a null, is found in the literal. -/
theorem mem_literalFindings_of_leaf {type : TypeRef} {path : List Nat} {leaf : Literal}
    (h : Leaf type literal path name leaf) (hv : ∀ v, leaf ≠ .var v) (hn : ∀ q, leaf ≠ .null q)
    (hf : NamedFinding schema name leaf finding) :
    finding ∈ literalFindings schema type literal := by
  induction h with
  | named name literal =>
    rw [literalFindings_named hv hn]
    exact mem_namedFindings_iff.2 hf
  | @nonNull inner literal _ _ _ h ih =>
    have hl : ∀ q, literal ≠ .null q := by
      rintro q rfl
      exact hn q h.eq_of_null
    rw [literalFindings_nonNull inner hl]
    exact ih hv hn hf
  | @item item items q i literal _ _ _ hi _ ih =>
    rw [literalFindings_items, List.mem_flatMap]
    exact ⟨literal, List.mem_of_getElem? hi, ih hv hn hf⟩
  | @single item literal _ _ _ hs h ih =>
    have hl : ∀ q, literal ≠ .null q := by
      rintro q rfl
      exact hn q h.eq_of_null
    rw [literalFindings_single item hl hs]
    exact ih hv hn hf

/-- **The integers accepted as floats** in a literal are the leaves that stand
against `Float`, unless the schema makes `Float` an enum. -/
theorem coercion_mem_literalFindings_iff {type : TypeRef} {n : Int64} {p : Position} :
    .coercion n p ∈ literalFindings schema type literal ↔
      (∃ path, Leaf type literal path "Float" (.int n p)) ∧
        ∀ type, schema.type? "Float" ≠ some (.enum type) := by
  constructor
  · intro h
    rcases found_in_literal h with ⟨_, _, hn⟩ | ⟨path, name, leaf, hl, hf⟩
    · cases hn
    · cases hf with
      | coercion ht hn =>
        subst hn
        exact ⟨⟨path, hl⟩, ht⟩
  · rintro ⟨⟨path, hl⟩, ht⟩
    exact mem_literalFindings_of_leaf hl (by simp) (by simp) (.coercion ht rfl)

end GraphQL.Validation
