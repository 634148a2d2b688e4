import GraphQL.Proofs.Listed
import GraphQL.Proofs.Validation.Literal

/-!
# Validation — acceptable literals

Which literals are acceptable for a type (`Acceptable`), said by the shapes of
type and literal, and where the leaves of a literal are under a type (`LeafAt`):
what is reached through list literals as far as there are list types for them.
Main statement: the check reports nothing exactly of an acceptable literal, and
otherwise one diagnostic for every leaf that is not acceptable, from left to
right; and it finds an integer for a float exactly if some leaf is one.
-/

namespace GraphQL

/-- The type of the items of a list type, with or without non-null around it. -/
def TypeRef.item? : TypeRef → Option TypeRef
  | .named _ => none
  | .list item => some item
  | .nonNull inner => inner.item?

theorem TypeRef.sizeOf_item?_lt {type item : TypeRef} (h : type.item? = some item) :
    sizeOf item < sizeOf type := by
  induction type with
  | named name => cases h
  | list item =>
    cases h
    simp
  | nonNull inner ih =>
    have := ih h
    simp
    omega

namespace Validation

/-! ## Acceptable literals -/

/-- A literal is acceptable for a type. -/
inductive Acceptable (schema : Schema) : TypeRef → Literal → Prop
  | var (type : TypeRef) (v : Name) : Acceptable schema type (.var v)
  | null {type : TypeRef} (p : Position) (ht : type.isNonNull = false) :
      Acceptable schema type (.null p)
  | nonNull {inner : TypeRef} {literal : Literal} (hn : ∀ p, literal ≠ .null p)
      (h : Acceptable schema inner literal) : Acceptable schema (.nonNull inner) literal
  | items {item : TypeRef} {items : List Literal} (p : Position)
      (h : ∀ literal ∈ items, Acceptable schema item literal) :
      Acceptable schema (.list item) (.list items p)
  /-- A single value stands for a list of one. -/
  | single {item : TypeRef} {literal : Literal} (hn : ∀ p, literal ≠ .null p)
      (hl : ∀ items p, literal ≠ .list items p) (h : Acceptable schema item literal) :
      Acceptable schema (.list item) literal
  | enumValue {name : String} {type : EnumType} {value : Name}
      (ht : schema.type? name = some (.enum type)) (hv : type.hasValue value.value = true) :
      Acceptable schema (.named name) (.enum value)
  | kind {name : String} {literal : Literal} (ht : ∀ type, schema.type? name ≠ some (.enum type))
      (hk : literal.kindName = name) : Acceptable schema (.named name) literal
  | object {name : String} {type : InputObjectType} {fields : List (Name × Literal)} {p : Position}
      (ht : schema.type? name = some (.inputObject type)) :
      Acceptable schema (.named name) (.object fields p)
  | widened {n : Int64} {p : Position} (ht : ∀ type, schema.type? "Float" ≠ some (.enum type)) :
      Acceptable schema (.named "Float") (.int n p)

variable {schema : Schema} {type item inner : TypeRef} {literal leaf : Literal} {name : String}

theorem acceptable_null_iff {p : Position} :
    Acceptable schema type (.null p) ↔ type.isNonNull = false := by
  constructor
  · intro h
    cases h with
    | null _ ht => exact ht
    | nonNull hn => exact absurd rfl (hn p)
    | single => rfl
    | kind => rfl
  · exact .null p

theorem acceptable_nonNull_iff (hn : ∀ p, literal ≠ .null p) :
    Acceptable schema (.nonNull inner) literal ↔ Acceptable schema inner literal := by
  constructor
  · intro h
    cases h with
    | var => exact .var inner _
    | null p => exact absurd rfl (hn p)
    | nonNull _ h => exact h
  · exact .nonNull hn

theorem acceptable_items_iff {items : List Literal} {p : Position} :
    Acceptable schema (.list item) (.list items p) ↔
      ∀ literal ∈ items, Acceptable schema item literal := by
  constructor
  · intro h
    cases h with
    | items _ h => exact h
    | single _ hl => exact absurd rfl (hl items p)
  · exact .items p

theorem acceptable_single_iff (hn : ∀ p, literal ≠ .null p)
    (hl : ∀ items p, literal ≠ .list items p) :
    Acceptable schema (.list item) literal ↔ Acceptable schema item literal := by
  constructor
  · intro h
    cases h with
    | var => exact .var item _
    | null p => exact absurd rfl (hn p)
    | items p => exact absurd rfl (hl _ p)
    | single _ _ h => exact h
  · exact .single hn hl

theorem Acceptable.not_namedFinding (h : Acceptable schema (.named name) literal)
    (hv : ∀ v, literal ≠ .var v) (hn : ∀ p, literal ≠ .null p) (cause : Problem) (p : Position) :
    ¬ NamedFinding schema name literal (.problem cause p) := by
  intro hf
  cases h with
  | var => exact hv _ rfl
  | null => exact hn _ rfl
  | enumValue ht hd =>
    cases hf with
    | unknownValue ht' hd' =>
      cases ht.symm.trans ht'
      exact absurd (hd.symm.trans hd') (by decide)
    | nonEnum _ hl => exact hl _ rfl
    | wrong hne => exact hne _ ht
  | kind ht hk =>
    cases hf with
    | unknownValue ht' => exact ht _ ht'
    | nonEnum ht' => exact ht _ ht'
    | wrong _ _ hk' => exact hk' hk
  | object ht =>
    cases hf with
    | nonEnum ht' => cases ht.symm.trans ht'
    | wrong _ ho => exact ho _ _ _ ht rfl
  | widened ht =>
    cases hf with
    | nonEnum ht' => exact ht _ ht'
    | wrong _ _ _ hi => exact hi rfl _ _ rfl

theorem acceptable_of_enum {type : EnumType} (ht : schema.type? name = some (.enum type))
    (h : ∀ cause p, ¬ NamedFinding schema name literal (.problem cause p)) :
    Acceptable schema (.named name) literal := by
  by_cases hl : ∃ value, literal = .enum value
  · obtain ⟨value, rfl⟩ := hl
    cases hd : type.hasValue value.value with
    | true => exact .enumValue ht hd
    | false => exact absurd (.unknownValue ht hd) (h _ _)
  · exact absurd (.nonEnum ht fun value he => hl ⟨value, he⟩) (h _ _)

/-- Against a named type, what is without problems is acceptable. -/
theorem acceptable_of_not_namedFinding
    (h : ∀ cause p, ¬ NamedFinding schema name literal (.problem cause p)) :
    Acceptable schema (.named name) literal := by
  by_cases he : ∃ type, schema.type? name = some (.enum type)
  · obtain ⟨type, ht⟩ := he
    exact acceptable_of_enum ht h
  · have ht : ∀ type, schema.type? name ≠ some (.enum type) := fun type hs => he ⟨type, hs⟩
    by_cases hk : literal.kindName = name
    · exact .kind ht hk
    · by_cases ho : ∃ type fields p, schema.type? name = some (.inputObject type) ∧
          literal = .object fields p
      · obtain ⟨type, fields, p, hi, rfl⟩ := ho
        exact .object hi
      · by_cases hi : name = "Float" ∧ ∃ n p, literal = .int n p
        · obtain ⟨rfl, n, p, rfl⟩ := hi
          exact .widened ht
        · refine absurd (.wrong ht ?_ hk ?_) (h _ _)
          · exact fun type fields p hs hl => ho ⟨type, fields, p, hs, hl⟩
          · exact fun hf n p hl => hi ⟨hf, n, p, hl⟩

/-- **The check finds no problem exactly in an acceptable literal.** -/
theorem acceptable_iff :
    Acceptable schema type literal ↔
      ∀ cause p, .problem cause p ∉ literalFindings schema type literal := by
  induction type generalizing literal with
  | named name =>
    by_cases hv : ∃ v, literal = .var v
    · obtain ⟨v, rfl⟩ := hv
      simp [literalFindings_var, Acceptable.var]
    · by_cases hn : ∃ p, literal = .null p
      · obtain ⟨p, rfl⟩ := hn
        simp [literalFindings_null, acceptable_null_iff, TypeRef.isNonNull]
      · have hv : ∀ v, literal ≠ .var v := fun v h => hv ⟨v, h⟩
        have hn : ∀ p, literal ≠ .null p := fun p h => hn ⟨p, h⟩
        rw [literalFindings_named hv hn]
        simp only [mem_namedFindings_iff]
        exact ⟨fun h => h.not_namedFinding hv hn, acceptable_of_not_namedFinding⟩
  | nonNull inner ih =>
    by_cases hn : ∃ p, literal = .null p
    · obtain ⟨p, rfl⟩ := hn
      simp [literalFindings_null, acceptable_null_iff, TypeRef.isNonNull]
    · have hn : ∀ p, literal ≠ .null p := fun p h => hn ⟨p, h⟩
      rw [acceptable_nonNull_iff hn, literalFindings_nonNull inner hn, ih]
  | list item ih =>
    by_cases hl : ∃ items p, literal = .list items p
    · obtain ⟨items, p, rfl⟩ := hl
      rw [acceptable_items_iff, literalFindings_items]
      simp only [List.mem_flatMap, ih]
      grind
    · by_cases hn : ∃ p, literal = .null p
      · obtain ⟨p, rfl⟩ := hn
        simp [literalFindings_null, acceptable_null_iff, TypeRef.isNonNull]
      · have hn : ∀ p, literal ≠ .null p := fun p h => hn ⟨p, h⟩
        have hl : ∀ items p, literal ≠ .list items p := fun items p h => hl ⟨items, p, h⟩
        rw [acceptable_single_iff hn hl, literalFindings_single item hn hl, ih]

theorem filterMap_diagnostic?_eq_nil_iff {findings : List Finding} :
    findings.filterMap Finding.diagnostic? = [] ↔ ∀ cause p, .problem cause p ∉ findings := by
  rw [List.filterMap_eq_nil_iff]
  constructor
  · intro h cause p hm
    cases h _ hm
  · intro h finding hm
    cases finding with
    | problem cause p => exact absurd hm (h cause p)
    | _ => rfl

/-! ## The leaves and what they are expected to be -/

/-- Under a type, the literal along a path of indices is a leaf, which is
expected to be of a type. Items are looked at where a list literal stands
against a list type; anything else is a leaf, also a single value or a null in
place of a list. -/
inductive LeafAt : TypeRef → Literal → List Nat → TypeRef → Literal → Prop
  | here {type : TypeRef} {literal : Literal}
      (h : ∀ items p item, literal = .list items p → type.item? ≠ some item) :
      LeafAt type literal [] type literal
  | item {type item expected : TypeRef} {items : List Literal} {p : Position} {i : Nat}
      {literal leaf : Literal} {path : List Nat} (ht : type.item? = some item)
      (hi : items[i]? = some literal) (h : LeafAt item literal path expected leaf) :
      LeafAt type (.list items p) (i :: path) expected leaf

/-- What is wrong with a leaf that is expected to be of a type. -/
inductive Mismatch (schema : Schema) (expected : TypeRef) : Literal → Problem → Prop
  | null {p : Position} (hn : expected.isNonNull = true) :
      Mismatch schema expected (.null p) (.unexpectedNull expected)
  | value {leaf : Literal} {cause : Problem} (hv : ∀ v, leaf ≠ .var v) (hn : ∀ p, leaf ≠ .null p)
      (h : NamedFinding schema expected.base leaf (.problem cause leaf.pos)) :
      Mismatch schema expected leaf cause

/-- At a path stands a leaf that is not acceptable, and this is the diagnostic for it. -/
def Reported (schema : Schema) (type : TypeRef) (literal : Literal) (path : List Nat)
    (diagnostic : Diagnostic) : Prop :=
  ∃ expected leaf cause, LeafAt type literal path expected leaf ∧
    ¬ Acceptable schema expected leaf ∧ Mismatch schema expected leaf cause ∧
    diagnostic = .located cause.message leaf.pos

/-- A leaf that is neither a variable nor a null is checked against the name of its type. -/
theorem literalFindings_leaf (hv : ∀ v, literal ≠ .var v) (hn : ∀ p, literal ≠ .null p)
    (hl : ∀ items p item, literal = .list items p → type.item? ≠ some item) :
    literalFindings schema type literal = namedFindings schema type.base literal := by
  induction type with
  | named name => exact literalFindings_named hv hn
  | nonNull inner ih =>
    rw [literalFindings_nonNull inner hn]
    exact ih hl
  | list item ih =>
    have hs : ∀ items p, literal ≠ .list items p := fun items p h => hl items p item h rfl
    rw [literalFindings_single item hn hs]
    exact ih fun items p _ h => absurd h (hs items p)

/-- The items of a list literal are checked one by one against the item type. -/
theorem literalFindings_of_item? (ht : type.item? = some item) (items : List Literal)
    (p : Position) : literalFindings schema type (.list items p) =
      items.flatMap (literalFindings schema item) := by
  induction type with
  | named name => cases ht
  | list other =>
    cases ht
    rfl
  | nonNull inner ih =>
    rw [literalFindings_nonNull inner (by simp)]
    exact ih ht

theorem namedFindings_length_le (schema : Schema) (name : String) (literal : Literal) :
    (namedFindings schema name literal).length ≤ 1 := by
  unfold namedFindings
  dsimp only
  repeat' split
  all_goals simp

/-- Against a named type there is at most one finding, at the literal. -/
theorem namedFindings_cases (schema : Schema) (name : String) (literal : Literal) :
    namedFindings schema name literal = [] ∨
      (∃ cause, namedFindings schema name literal = [.problem cause literal.pos]) ∨
      ∃ n p, namedFindings schema name literal = [.coercion n p] := by
  cases hf : namedFindings schema name literal with
  | nil => exact .inl rfl
  | cons first rest =>
    have hr : rest = [] := by
      have := namedFindings_length_le schema name literal
      simp [hf] at this
      exact this
    subst hr
    have hm : NamedFinding schema name literal first := by
      rw [← mem_namedFindings_iff, hf]
      exact List.mem_singleton.2 rfl
    refine .inr ?_
    cases hm with
    | unknownValue => exact .inl ⟨_, rfl⟩
    | nonEnum => exact .inl ⟨_, rfl⟩
    | coercion => exact .inr ⟨_, _, rfl⟩
    | wrong => exact .inl ⟨_, rfl⟩

/-- At a leaf that is not acceptable there is one diagnostic. -/
theorem exists_mismatch (hl : ∀ items p item, literal = .list items p → type.item? ≠ some item)
    (h : ¬ Acceptable schema type literal) :
    ∃ cause, Mismatch schema type literal cause ∧
      (literalFindings schema type literal).filterMap Finding.diagnostic? =
        [.located cause.message literal.pos] := by
  have hv : ∀ v, literal ≠ .var v := by
    rintro v rfl
    exact h (.var type v)
  by_cases hn : ∃ p, literal = .null p
  · obtain ⟨p, rfl⟩ := hn
    have ht : type.isNonNull = true := by simpa [acceptable_null_iff] using h
    refine ⟨_, .null ht, ?_⟩
    rw [literalFindings_null, if_pos ht]
    rfl
  · have hn : ∀ p, literal ≠ .null p := fun p hp => hn ⟨p, hp⟩
    rw [acceptable_iff, literalFindings_leaf hv hn hl] at h
    rw [literalFindings_leaf hv hn hl]
    rcases namedFindings_cases schema type.base literal with hf | ⟨cause, hf⟩ | ⟨n, p, hf⟩
    · simp [hf] at h
    · refine ⟨cause, .value hv hn (mem_namedFindings_iff.1 ?_), ?_⟩
      · rw [hf]
        exact List.mem_singleton.2 rfl
      · rw [hf]
        rfl
    · simp [hf] at h

/-- **What is reported of a literal**: one diagnostic for every leaf that is not
acceptable, in the order of the leaves. -/
theorem reported_listed (schema : Schema) (type : TypeRef) (literal : Literal) :
    Listed (Reported schema type literal)
      ((literalFindings schema type literal).filterMap Finding.diagnostic?) := by
  by_cases hl : ∃ items p item, literal = .list items p ∧ type.item? = some item
  · obtain ⟨items, p, item, rfl, ht⟩ := hl
    have := TypeRef.sizeOf_item?_lt ht
    rw [literalFindings_of_item? ht, List.filterMap_flatMap]
    refine (Listed.flatMap fun literal _ => reported_listed schema item literal).congr ?_
    intro path diagnostic
    constructor
    · rintro ⟨i, path, literal, rfl, hi, expected, leaf, cause, hp, hr⟩
      exact ⟨expected, leaf, cause, .item ht hi hp, hr⟩
    · rintro ⟨expected, leaf, cause, hp, hr⟩
      cases hp with
      | here h => exact absurd ht (h items p item rfl)
      | item ht' hi hp =>
        cases ht.symm.trans ht'
        exact ⟨_, _, _, rfl, hi, expected, leaf, cause, hp, hr⟩
  · -- a leaf by itself: the only path is the empty one
    have hl : ∀ items p item, literal = .list items p → type.item? ≠ some item :=
      fun items p item h ht => hl ⟨items, p, item, h, ht⟩
    have only : ∀ {path expected leaf}, LeafAt type literal path expected leaf →
        path = [] ∧ expected = type ∧ leaf = literal := by
      intro path expected leaf h
      cases h with
      | here => exact ⟨rfl, rfl, rfl⟩
      | item ht => exact absurd ht (hl _ _ _ rfl)
    by_cases ha : Acceptable schema type literal
    · rw [filterMap_diagnostic?_eq_nil_iff.2 (acceptable_iff.1 ha)]
      refine .nil ?_
      rintro path diagnostic ⟨expected, leaf, cause, hp, hn, -⟩
      obtain ⟨-, rfl, rfl⟩ := only hp
      exact hn ha
    · obtain ⟨cause, hm, hd⟩ := exists_mismatch hl ha
      rw [hd]
      refine .single ⟨type, literal, cause, .here hl, ha, hm, rfl⟩ ?_
      rintro path diagnostic ⟨expected, leaf, cause, hp, -⟩
      exact (only hp).1.symm
termination_by sizeOf type

/-! ## Integers for floats -/

/-- A leaf stands against the name of the type that it is expected to be of. -/
theorem LeafAt.toLeaf {path : List Nat} {expected : TypeRef}
    (h : LeafAt type literal path expected leaf) : Leaf type literal path expected.base leaf := by
  induction h with
  | @here type literal h =>
    induction type with
    | named name => exact .named name literal
    | nonNull inner ih => exact .nonNull (ih h)
    | list item ih =>
      have hs : ∀ items p, literal ≠ .list items p := fun items p hl => h items p item hl rfl
      exact .single hs (ih fun items p _ hl => absurd hl (hs items p))
  | @item type item expected items p i literal leaf path ht hi _ ih =>
    induction type with
    | named name => cases ht
    | nonNull inner ihi => exact .nonNull (ihi ht)
    | list other =>
      cases ht
      exact .item hi ih

theorem Leaf.exists_leafAt {path : List Nat} (h : Leaf type literal path name leaf) :
    ∃ expected, LeafAt type literal path expected leaf ∧ expected.base = name := by
  induction h with
  | named name literal => exact ⟨_, .here (by simp [TypeRef.item?]), rfl⟩
  | nonNull _ ih =>
    obtain ⟨expected, hl, hb⟩ := ih
    cases hl with
    | here h => exact ⟨_, .here h, hb⟩
    | item ht hi hl => exact ⟨_, .item ht hi hl, hb⟩
  | item hi _ ih =>
    obtain ⟨expected, hl, hb⟩ := ih
    exact ⟨_, .item rfl hi hl, hb⟩
  | single hs _ ih =>
    obtain ⟨expected, hl, hb⟩ := ih
    cases hl with
    | here _ => exact ⟨_, .here fun items p _ h => absurd h (hs items p), hb⟩
    | item => exact absurd rfl (hs _ _)

/-- An integer leaf is accepted as a float. -/
def AcceptsInteger (schema : Schema) (type : TypeRef) (literal : Literal) : Prop :=
  ∃ path expected n p, LeafAt type literal path expected (.int n p) ∧
    expected.base = "Float" ∧ ∀ type, schema.type? "Float" ≠ some (.enum type)

theorem any_isCoercion_iff :
    (literalFindings schema type literal).any Finding.isCoercion = true ↔
      AcceptsInteger schema type literal := by
  rw [List.any_eq_true]
  constructor
  · rintro ⟨finding, hm, hf⟩
    cases finding with
    | coercion n p =>
      obtain ⟨⟨path, hl⟩, he⟩ := coercion_mem_literalFindings_iff.1 hm
      obtain ⟨expected, hl, hb⟩ := hl.exists_leafAt
      exact ⟨path, expected, n, p, hl, hb, he⟩
    | _ => cases hf
  · rintro ⟨path, expected, n, p, hl, hb, he⟩
    exact ⟨_, coercion_mem_literalFindings_iff.2 ⟨⟨path, hb ▸ hl.toLeaf⟩, he⟩, rfl⟩

/-- **A literal against a type.** Nothing is reported exactly if the literal is
acceptable. What is reported is appended to what was reported before: one
diagnostic for every leaf that is not acceptable, at the leaf, from left to
right. Whether an integer stands for a float is known afterwards exactly if it
was known before or a leaf of the literal is such an integer. -/
theorem literal_reported (schema : Schema) (type : TypeRef) (literal : Literal) :
    ((literalFindings schema type literal).filterMap Finding.diagnostic? = [] ↔
      Acceptable schema type literal) ∧
    ∀ before : List Finding,
      (∃ reported, (before ++ literalFindings schema type literal).filterMap Finding.diagnostic? =
          before.filterMap Finding.diagnostic? ++ reported ∧
        Listed (Reported schema type literal) reported) ∧
      ((before ++ literalFindings schema type literal).any Finding.isCoercion = true ↔
        before.any Finding.isCoercion = true ∨ AcceptsInteger schema type literal) := by
  refine ⟨filterMap_diagnostic?_eq_nil_iff.trans acceptable_iff.symm, fun before => ⟨?_, ?_⟩⟩
  · exact ⟨_, List.filterMap_append, reported_listed schema type literal⟩
  · rw [List.any_append, Bool.or_eq_true, any_isCoercion_iff]

end Validation

end GraphQL
