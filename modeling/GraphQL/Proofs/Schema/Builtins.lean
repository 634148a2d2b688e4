import GraphQL.Proofs.Keyed
import GraphQL.Schema.Basic

/-!
# Schemas — the built-in types

A schema has the built-in types if it has some type under each of their
names (`HasBuiltins`). Registering them changes no type that is there: the
missing ones come to the end, in their order. So a schema that has them is
left as it is, and registering them twice is registering them once.
-/

namespace GraphQL

/-- The built-in types have different names. -/
theorem Introspection.nodup_builtinNames : (builtinTypes.map TypeDefinition.name).Nodup := by
  decide

namespace Schema

variable {schema : Schema}

theorem ext_types {other : Schema} (hq : schema.queryType = other.queryType)
    (hm : schema.mutationType = other.mutationType)
    (hs : schema.subscriptionType = other.subscriptionType) (ht : schema.types = other.types) :
    schema = other := by
  obtain ⟨_, _, _, _⟩ := schema
  cases hq; cases hm; cases hs; cases ht
  rfl

/-- There is a type under the name of every built-in type. -/
def HasBuiltins (schema : Schema) : Prop :=
  ∀ type ∈ Introspection.builtinTypes, (schema.type? type.name).isSome

@[simp] theorem queryType_withBuiltins (schema : Schema) :
    schema.withBuiltins.queryType = schema.queryType := by
  rw [withBuiltins]

@[simp] theorem mutationType_withBuiltins (schema : Schema) :
    schema.withBuiltins.mutationType = schema.mutationType := by
  rw [withBuiltins]

@[simp] theorem subscriptionType_withBuiltins (schema : Schema) :
    schema.withBuiltins.subscriptionType = schema.subscriptionType := by
  rw [withBuiltins]

theorem types_withBuiltins (schema : Schema) :
    schema.withBuiltins.types =
      Keyed.addNew TypeDefinition.name Introspection.builtinTypes schema.types := by
  rw [withBuiltins, Keyed.addNew]

theorem type?_withBuiltins (schema : Schema) (key : String) :
    schema.withBuiltins.type? key =
      (schema.type? key).or (Introspection.builtinTypes.find? fun type => type.name == key) := by
  rw [type?, types_withBuiltins, Keyed.get?_addNew]
  rfl

/-- **The missing built-in types come to the end**, and all else stays as it is. -/
theorem entries_withBuiltins (schema : Schema) :
    schema.withBuiltins.types.entries = schema.types.entries ++
      (Introspection.builtinTypes.filter fun type => (schema.type? type.name).isNone).map
        fun type => (type.name, type) := by
  rw [types_withBuiltins, Keyed.entries_addNew _ _ _ Introspection.nodup_builtinNames]
  rfl

theorem hasBuiltins_withBuiltins (schema : Schema) : schema.withBuiltins.HasBuiltins := by
  intro type ht
  have hf : (Introspection.builtinTypes.find? fun other => other.name == type.name).isSome :=
    List.find?_isSome.2 ⟨type, ht, beq_self_eq_true type.name⟩
  rw [type?_withBuiltins, Option.isSome_or, hf, Bool.or_true]

/-- A schema with the built-in types is left as it is. -/
theorem HasBuiltins.withBuiltins (h : schema.HasBuiltins) : schema.withBuiltins = schema := by
  refine ext_types (by simp) (by simp) (by simp) ?_
  rw [types_withBuiltins]
  exact Keyed.addNew_eq_self _ _ _ h

end Schema

end GraphQL
