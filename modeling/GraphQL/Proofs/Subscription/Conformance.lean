import GraphQL.Proofs.Number.Conversion
import GraphQL.Proofs.Validation.Widening
import GraphQL.Subscription.Binding
import Mathlib.Data.List.Forall2

/-!
# Subscriptions — values that conform to their types

What a resolver may rely on (`Conforms`): the JSON value of a literal at a
declared type, named types by their kind and built-in scalars by their name.
Main statement: a literal without problems and without variables has such a
value once its integers are widened.
-/

namespace GraphQL

mutual

/-- The literal has no variable and no float that JSON cannot write. -/
def Literal.isClosed : Literal → Bool
  | .var _ => false
  | .float x _ => x.isFinite
  | .list items _ => Literal.closedItems items
  | .object fields _ => Literal.closedFields fields
  | _ => true

/-- Every item is closed. -/
def Literal.closedItems : List Literal → Bool
  | [] => true
  | item :: items => item.isClosed && Literal.closedItems items

/-- Every value of a field is closed. -/
def Literal.closedFields : List (Name × Literal) → Bool
  | [] => true
  | (_, value) :: fields => value.isClosed && Literal.closedFields fields

end

theorem Literal.isClosed_of_mem {items : List Literal} (h : Literal.closedItems items = true)
    {item : Literal} (hm : item ∈ items) : item.isClosed = true := by
  induction items with
  | nil => cases hm
  | cons first items ih =>
    simp only [Literal.closedItems, Bool.and_eq_true] at h
    rcases List.mem_cons.1 hm with rfl | hm
    · exact h.1
    · exact ih h.2 hm

namespace Subscription

/-- The value of a literal at a named type: one of the values of an enum, an
object where an object literal is given for an input object, and what the
built-in scalars stand for. -/
structure NamedConforms (schema : Schema) (name : String) (literal : Literal) (value : Json) :
    Prop where
  enum : ∀ type, schema.type? name = some (.enum type) →
    ∃ s, value = .string s ∧ type.hasValue s = true
  inputObject : ∀ type fields p, schema.type? name = some (.inputObject type) →
    literal = .object fields p → ∃ members, value = .object members
  int : name = "Int" → ∃ n, value = .int n
  float : name = "Float" → ∃ x, value = .float x
  string : name = "String" → ∃ s, value = .string s
  boolean : name = "Boolean" → ∃ b, value = .bool b

/-- The value of a literal at a type. Only a null is null, and only where the
type allows it; at a list type there is an array for a list, and a single
value for any other literal. -/
def Conforms (schema : Schema) : TypeRef → Literal → Json → Prop
  | .named name, literal, value =>
    (∃ p, literal = .null p ∧ value = .null) ∨ NamedConforms schema name literal value
  | .nonNull inner, literal, value => value ≠ .null ∧ Conforms schema inner literal value
  | .list item, literal, value =>
    (∃ p, literal = .null p ∧ value = .null) ∨
    (∃ items p values, literal = .list items p ∧ value = .array values ∧
      List.Forall₂ (Conforms schema item) items values) ∨
    (∀ items p, literal ≠ .list items p) ∧ Conforms schema item literal value

/-- The schema has the built-in scalars that literals are written for. -/
structure HasScalars (schema : Schema) : Prop where
  int : ∃ type, schema.type? "Int" = some (.scalar type)
  float : ∃ type, schema.type? "Float" = some (.scalar type)
  string : ∃ type, schema.type? "String" = some (.scalar type)
  boolean : ∃ type, schema.type? "Boolean" = some (.scalar type)

open Validation

variable {schema : Schema} {env : String → Option Json} {literal : Literal} {name : String}

/-- A name of another kind of type is none of the four scalars. -/
theorem HasScalars.ne_of_type? (hs : HasScalars schema) {type : TypeDefinition}
    (ht : schema.type? name = some type) (hk : ∀ scalar, type ≠ .scalar scalar) :
    name ≠ "Int" ∧ name ≠ "Float" ∧ name ≠ "String" ∧ name ≠ "Boolean" := by
  obtain ⟨⟨int, hi⟩, ⟨float, hf⟩, ⟨string, hs⟩, ⟨boolean, hb⟩⟩ := hs
  refine ⟨?_, ?_, ?_, ?_⟩
  · rintro rfl
    exact hk int (Option.some.inj (ht.symm.trans hi))
  · rintro rfl
    exact hk float (Option.some.inj (ht.symm.trans hf))
  · rintro rfl
    exact hk string (Option.some.inj (ht.symm.trans hs))
  · rintro rfl
    exact hk boolean (Option.some.inj (ht.symm.trans hb))

/-- A closed literal other than a null has a value other than null. -/
theorem exists_value?_of_closed (hc : literal.isClosed = true) (hn : ∀ p, literal ≠ .null p) :
    ∃ value, literal.value? env = some value ∧ value ≠ .null := by
  cases literal with
  | var v => cases hc
  | null p => exact absurd rfl (hn p)
  | float x p =>
    have hx : x.isFinite = true := hc
    exact ⟨.float x, by simp [Literal.value?, Json.ofFloat, hx], by simp⟩
  | _ => exact ⟨_, rfl, by simp⟩

theorem isClosed_widened (hc : literal.isClosed = true) : literal.widened.isClosed = true := by
  cases literal with
  | int n p => exact Number.isFinite_ofInt n
  | _ => exact hc

/-! ## Literals at named types -/

/-- An accepted literal at an enum is one of its values. -/
theorem eq_enum_of_no_problem {type : EnumType} (ht : schema.type? name = some (.enum type))
    (hp : ∀ cause p, ¬ NamedFinding schema name literal (.problem cause p)) :
    ∃ value, literal = .enum value ∧ type.hasValue value.value = true := by
  by_cases hl : ∃ value, literal = .enum value
  · obtain ⟨value, rfl⟩ := hl
    refine ⟨value, rfl, ?_⟩
    by_contra hv
    exact hp _ _ (.unknownValue ht (by simpa using hv))
  · exact absurd (.nonEnum ht fun value h => hl ⟨value, h⟩) (hp _ _)

/-- An accepted literal at any other name has the kind of that name, is an integer at
`Float`, or an object at an input object. -/
theorem kindName_of_no_problem (ht : ∀ type, schema.type? name ≠ some (.enum type))
    (hp : ∀ cause p, ¬ NamedFinding schema name literal (.problem cause p)) :
    literal.kindName = name ∨ (name = "Float" ∧ ∃ n p, literal = .int n p) ∨
      ∃ type fields p, schema.type? name = some (.inputObject type) ∧
        literal = .object fields p := by
  by_cases hk : literal.kindName = name
  · exact .inl hk
  by_cases hi : name = "Float" ∧ ∃ n p, literal = .int n p
  · exact .inr (.inl hi)
  by_cases ho : ∃ type fields p, schema.type? name = some (.inputObject type) ∧
      literal = .object fields p
  · exact .inr (.inr ho)
  have ho' : ∀ type fields p, schema.type? name = some (.inputObject type) →
      literal ≠ .object fields p := fun type fields p h hl => ho ⟨type, fields, p, h, hl⟩
  exact absurd (.wrong ht ho' hk fun hn n p hl => hi ⟨hn, n, p, hl⟩) (hp _ _)

theorem widenLiteral_kindName (literal : Literal) :
    widenLiteral (.named literal.kindName) literal = literal := by
  cases literal <;> simp [widenLiteral, Literal.kindName, Literal.widened, Literal.toFloat?]

/-- The value of an accepted literal at a named type. -/
theorem namedConforms (hs : HasScalars schema) (hc : literal.isClosed = true)
    (hp : ∀ cause p, ¬ NamedFinding schema name literal (.problem cause p)) {value : Json}
    (hv : (widenLiteral (.named name) literal).value? env = some value) :
    NamedConforms schema name literal value := by
  -- an enum rules out the four scalars, and so does an input object
  by_cases he : ∃ type, schema.type? name = some (.enum type)
  · obtain ⟨type, ht⟩ := he
    obtain ⟨hi, hf, hst, hb⟩ := hs.ne_of_type? ht (by simp)
    obtain ⟨symbol, rfl, hm⟩ := eq_enum_of_no_problem ht hp
    simp only [widenLiteral, hf, if_false, Literal.value?, Option.some.injEq] at hv
    subst hv
    refine ⟨?_, by simp, by simp [hi], by simp [hf], by simp [hst], by simp [hb]⟩
    intro other ho
    cases ht.symm.trans ho
    exact ⟨_, rfl, hm⟩
  · have ht : ∀ type, schema.type? name ≠ some (.enum type) := fun type h => he ⟨type, h⟩
    rcases kindName_of_no_problem ht hp with rfl | ⟨rfl, n, p, rfl⟩ | ⟨type, fields, p, hi, rfl⟩
    · rw [widenLiteral_kindName] at hv
      cases literal with
      | var v => cases hc
      | float x p =>
        have hx : x.isFinite = true := hc
        simp only [Literal.value?, Json.ofFloat, hx, if_true, Option.some.injEq] at hv
        subst hv
        exact ⟨fun type h => absurd h (ht type), by simp, by simp [Literal.kindName], by simp,
          by simp [Literal.kindName], by simp [Literal.kindName]⟩
      | _ =>
        cases hv
        exact ⟨fun type h => absurd h (ht type), by simp, by simp [Literal.kindName],
          by simp [Literal.kindName], by simp [Literal.kindName], by simp [Literal.kindName]⟩
    · have hx : (Float.ofInt n.toInt).isFinite = true := Number.isFinite_ofInt n
      simp only [widenLiteral, if_true, Literal.widened, Literal.toFloat?, Option.getD_some,
        Literal.value?, Json.ofFloat, hx, Option.some.injEq] at hv
      subst hv
      exact ⟨fun type h => absurd h (ht type), by simp, by simp, by simp, by simp, by simp⟩
    · obtain ⟨hi, hf, hst, hb⟩ := hs.ne_of_type? hi (by simp)
      simp only [widenLiteral, hf, if_false, Literal.value?, Option.some.injEq] at hv
      subst hv
      exact ⟨fun type h => absurd h (ht type), by simp, by simp [hi], by simp [hf], by simp [hst],
        by simp [hb]⟩

/-! ## Literals at any type -/

theorem widened_ne_null (hn : ∀ p, literal ≠ .null p) : ∀ p, literal.widened ≠ .null p := by
  intro p
  cases literal with
  | null q => exact absurd rfl (hn q)
  | _ => simp [Literal.widened, Literal.toFloat?]

/-- A closed literal has a value at a named type, null only if it is a null. -/
theorem exists_value?_named (hc : literal.isClosed = true) (hn : ∀ p, literal ≠ .null p) :
    ∃ value, (widenLiteral (.named name) literal).value? env = some value ∧ value ≠ .null := by
  unfold widenLiteral
  split
  · exact exists_value?_of_closed (isClosed_widened hc) (widened_ne_null hn)
  · exact exists_value?_of_closed hc hn

/-- The items of a list literal conform one by one. -/
theorem conforms_items {item : TypeRef} {items : List Literal}
    (h : ∀ literal ∈ items, ∃ value, (widenLiteral item literal).value? env = some value ∧
      Conforms schema item literal value) :
    List.Forall₂ (Conforms schema item) items
      (Literal.itemValues env (items.map (widenLiteral item))) := by
  induction items with
  | nil => exact .nil
  | cons literal items ih =>
    obtain ⟨value, hv, hc⟩ := h literal List.mem_cons_self
    rw [List.map_cons, Literal.itemValues, hv]
    exact .cons hc (ih fun literal hm => h literal (List.mem_cons_of_mem _ hm))

/-- **An accepted closed literal conforms to its type**: once its integers are
widened it has a value, which conforms and is null only for a null. -/
theorem conforms_of_no_problem (hs : HasScalars schema) {type : TypeRef}
    (hc : literal.isClosed = true)
    (hp : ∀ cause p, .problem cause p ∉ literalFindings schema type literal) :
    ∃ value, (widenLiteral type literal).value? env = some value ∧
      Conforms schema type literal value ∧ (value = .null → ∃ p, literal = .null p) := by
  induction type generalizing literal with
  | named name =>
    by_cases hn : ∃ p, literal = .null p
    · obtain ⟨p, rfl⟩ := hn
      refine ⟨.null, ?_, .inl ⟨p, rfl, rfl⟩, fun _ => ⟨p, rfl⟩⟩
      rw [widenLiteral_eq_self _ (by simp) (by simp)]
      rfl
    · have hn : ∀ p, literal ≠ .null p := fun p h => hn ⟨p, h⟩
      obtain ⟨value, hv, hne⟩ := exists_value?_named hc hn
      refine ⟨value, hv, .inr (namedConforms hs hc ?_ hv), fun h => absurd h hne⟩
      intro cause p hf
      have hvar : ∀ v, literal ≠ .var v := by
        rintro v rfl
        cases hc
      exact hp cause p (mem_literalFindings_of_leaf (.named name literal) hvar hn hf)
  | nonNull inner ih =>
    have hn : ∀ p, literal ≠ .null p := by
      rintro p rfl
      exact hp _ _ (List.mem_singleton.2 rfl)
    rw [literalFindings_nonNull inner hn] at hp
    obtain ⟨value, hv, hcon, hnull⟩ := ih hc hp
    refine ⟨value, hv, ⟨?_, hcon⟩, hnull⟩
    intro h
    obtain ⟨p, hl⟩ := hnull h
    exact hn p hl
  | list item ih =>
    by_cases hn : ∃ p, literal = .null p
    · obtain ⟨p, rfl⟩ := hn
      refine ⟨.null, ?_, .inl ⟨p, rfl, rfl⟩, fun _ => ⟨p, rfl⟩⟩
      rw [widenLiteral_eq_self _ (by simp) (by simp)]
      rfl
    · have hn : ∀ p, literal ≠ .null p := fun p h => hn ⟨p, h⟩
      -- a list conforms item by item, anything else as a single item
      by_cases hl : ∃ items p, literal = .list items p
      · obtain ⟨items, p, rfl⟩ := hl
        refine ⟨_, rfl, .inr (.inl ⟨items, p, _, rfl, rfl, conforms_items ?_⟩), by simp⟩
        intro literal hm
        have hp' : ∀ cause p, .problem cause p ∉ literalFindings schema item literal :=
          fun cause p h => hp cause p (List.mem_flatMap.2 ⟨literal, hm, h⟩)
        obtain ⟨value, hv, hcon, -⟩ := ih (Literal.isClosed_of_mem hc hm) hp'
        exact ⟨value, hv, hcon⟩
      · have hl : ∀ items p, literal ≠ .list items p := fun items p h => hl ⟨items, p, h⟩
        rw [literalFindings_single item hn hl] at hp
        obtain ⟨value, hv, hcon, hnull⟩ := ih hc hp
        refine ⟨value, ?_, .inr (.inr ⟨hl, hcon⟩), hnull⟩
        rw [widenLiteral_single item hl, hv]

end Subscription

end GraphQL
