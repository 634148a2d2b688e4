import GraphQL.Document.Build
import GraphQL.Proofs.Schema.Builtins
import GraphQL.Proofs.Validation.Reachable
import GraphQL.Schema.Decoding

/-!
# Validation — what tells types apart

A document refers to a type by its key. Whether some object can be of two types
is decided by the definitions' own names instead, which a loaded schema need not
have, and which need not be the keys. Main statement: a fragment on another
object type is reported wherever it stands exactly if object types under
different keys have different names (`Schema.SeparatesObjects`). So it is in a
schema whose types all stand under their own names, as in one that was built
type by type. In a loaded schema whose types lack names, nothing is reported.
-/

namespace GraphQL

open Validation

namespace Schema

/-- Keys tell object types apart: in selections on one object type, a fragment on another
is reported where it stands. -/
def IdentifiesByKey (schema : Schema) : Prop :=
  ∀ (A B : String) (a b : ObjectType), A ≠ B →
    schema.type? A = some (.object a) → schema.type? B = some (.object b) →
    ∀ (table : FragmentTable) (path : List String) (selections : List Selection)
      (selection : Selection) (name : Option String) (p : Position) (body : List Selection),
      selection ∈ selections → Conditioned table selection name B p body →
        .located (Problem.impossibleSpread name a.name b.name).message p ∈
          (selectionsFindings schema table path (.object a) selections).filterMap
            Finding.diagnostic?

/-- Object types under different keys have different names. -/
def SeparatesObjects (schema : Schema) : Prop :=
  ∀ (A B : String) (a b : ObjectType), A ≠ B →
    schema.type? A = some (.object a) → schema.type? B = some (.object b) → a.name ≠ b.name

/-- Every type stands under its own name. -/
def NamedByKey (schema : Schema) : Prop :=
  ∀ (key : String) (type : TypeDefinition), schema.type? key = some type → type.name = key

variable {schema : Schema}

/-- Two object types overlap if they have the same name. -/
theorem overlap_objects (schema : Schema) (a b : ObjectType) :
    schema.overlap (.object a) (.object b) = (a.name == b.name) := by
  simp only [overlap, TypeDefinition.name, possibleTypes, List.any_cons, List.any_nil,
    Bool.or_false, List.contains_cons, List.contains_nil, Bool.beq_comm (b := a.name),
    Bool.or_self]

/-- A fragment on an object type under an object type is looked into, and reported if the
names are different. -/
theorem fragmentStep_objects {a b : ObjectType} {condition : String}
    (hb : schema.type? condition = some (.object b)) (name : Option String) (p : Position) :
    fragmentStep schema (.object a) name condition p =
      ⟨if b.name = a.name then [] else [.problem (.impossibleSpread name a.name b.name) p],
        some (.object b)⟩ := by
  simp [fragmentStep, hb, overlap_objects, TypeDefinition.name]

theorem SeparatesObjects.problem_mem (h : schema.SeparatesObjects) {A B : String}
    {a b : ObjectType} (hne : A ≠ B) (ha : schema.type? A = some (.object a))
    (hb : schema.type? B = some (.object b)) {table : FragmentTable} {selection : Selection}
    {name : Option String} {p : Position} {body : List Selection}
    (hs : Conditioned table selection name B p body) :
    .problem (.impossibleSpread name a.name b.name) p ∈
      (selectionStep schema table (.object a) selection).findings := by
  have names : b.name ≠ a.name := (h A B a b hne ha hb).symm
  rw [(hs.selectionStep schema (.object a)).1, fragmentStep_objects hb, if_neg names]
  exact List.mem_singleton_self _

theorem SeparatesObjects.identifiesByKey (h : schema.SeparatesObjects) :
    schema.IdentifiesByKey := by
  intro A B a b hne ha hb table path selections selection name p body hm hs
  refine List.mem_filterMap.2 ⟨.problem (.impossibleSpread name a.name b.name) p, ?_, rfl⟩
  rw [selectionsFindings_eq]
  refine List.mem_flatMap.2 ⟨selection, hm, ?_⟩
  rw [selectionFindings_eq]
  exact List.mem_append_left _ (h.problem_mem hne ha hb hs)

/-- An inline fragment without selections has no finding but its own. -/
theorem IdentifiesByKey.separatesObjects (h : schema.IdentifiesByKey) :
    schema.SeparatesObjects := by
  intro A B a b hne ha hb same
  let fragment : InlineFragment := .ofList (some B) []
  have conditioned : Conditioned ⟨[]⟩ (.inline fragment) none B .unknown [] := by
    have condition : fragment.typeCondition = some (.bare B) := rfl
    exact .inline condition
  have found := h A B a b hne ha hb ⟨[]⟩ [] [.inline fragment] _ _ _ _ List.mem_cons_self conditioned
  have step : selectionStep schema ⟨[]⟩ (.object a) (.inline fragment) =
      ⟨[], some (.object b)⟩ := by
    rw [(conditioned.selectionStep schema (.object a)).1, fragmentStep_objects hb,
      if_pos same.symm]
  have body : bodyOf ⟨[]⟩ (.inline fragment) = [] := rfl
  rw [selectionsFindings_eq, List.flatMap_singleton, selectionFindings_eq, step] at found
  simp [inside, body, selectionsFindings] at found

theorem NamedByKey.separatesObjects (h : schema.NamedByKey) : schema.SeparatesObjects := by
  intro A B a b hne ha hb same
  have hA : a.name = A := h A _ ha
  have hB : b.name = B := h B _ hb
  exact hne (hA.symm.trans (same.trans hB))

theorem NamedByKey.withBuiltins (h : schema.NamedByKey) : schema.withBuiltins.NamedByKey := by
  intro key type ht
  rw [type?_withBuiltins, Option.or_eq_some_iff] at ht
  rcases ht with ht | ⟨-, ht⟩
  · exact h key type ht
  · have named := List.find?_some ht
    exact eq_of_beq named

theorem NamedByKey.withType (h : schema.NamedByKey) (type : TypeDefinition) :
    (schema.withType type).NamedByKey := by
  intro key other ht
  rw [type?, Schema.withType, Keyed.get?_insert] at ht
  by_cases hk : key = type.name
  · rw [if_pos hk] at ht
    cases ht
    exact hk.symm
  · rw [if_neg hk] at ht
    exact h key other ht

/-- **When keys tell types apart**: a fragment on an object type in selections on another
is reported where it stands, in every selection set and so in every document, exactly
if object types under different keys have different names. They do if all types stand
under their own names; then they still do with the built-in types, and with one more
type that is added. -/
theorem identifiesByKey_iff (schema : Schema) :
    (schema.IdentifiesByKey ↔ schema.SeparatesObjects) ∧
      (schema.SeparatesObjects → ∀ (document : Document) (A B : String) (a b : ObjectType),
        A ≠ B → schema.type? A = some (.object a) → schema.type? B = some (.object b) →
        ∀ (selection : Selection) (name : Option String) (p : Position) (body : List Selection),
          Reachable schema document selection (.object a) →
          Conditioned (.ofDocument document) selection name B p body →
            .located (Problem.impossibleSpread name a.name b.name).message p ∈
              schema.diagnose document) ∧
      (schema.NamedByKey → schema.SeparatesObjects ∧ schema.withBuiltins.NamedByKey ∧
        ∀ type, (schema.withType type).NamedByKey) := by
  refine ⟨⟨fun h => h.separatesObjects, fun h => h.identifiesByKey⟩, ?_, ?_⟩
  · intro h document A B a b hne ha hb selection name p body hr hs
    refine List.mem_filterMap.2 ⟨.problem (.impossibleSpread name a.name b.name) p, ?_, rfl⟩
    have uncut : ¬ IsCut (.problem (.impossibleSpread name a.name b.name) p) := id
    exact (mem_documentFindings_iff uncut).2 (.inr ⟨selection, _, hr, h.problem_mem hne ha hb hs⟩)
  · intro h
    exact ⟨h.separatesObjects, h.withBuiltins, h.withType⟩

end Schema

/-- A schema of two object types that lack names. -/
def namelessText : String :=
  "\x7b\"types\":\x7b\"Query\":\x7b\"kind\":\"OBJECT\"\x7d,\"Dog\":\x7b\"kind\":\"OBJECT\"\x7d\x7d\x7d"

/-- A query with a fragment on the second type. -/
def dogQuery : Document :=
  ⟨[.operation (.ofList .query
    [.inline (.ofList (some "Dog") [.field (.named "__typename")])])]⟩

/-- The name of an object type that a schema has. -/
def objectName? (schema : Schema) (key : String) : Option String :=
  match schema.type? key with
  | some (.object type) => some type.name
  | _ => none

theorem exists_object_of_objectName? {schema : Schema} {key name : String}
    (h : objectName? schema key = some name) :
    ∃ type, schema.type? key = some (.object type) ∧ type.name = name := by
  unfold objectName? at h
  split at h
  · rename_i type ht
    cases h
    exact ⟨type, ht, rfl⟩
  · cases h

/-- The text is loaded, and its two types are taken for one: nothing is reported. -/
theorem namelessText_unreported :
    ∃ schema, Schema.ofText? namelessText = some schema ∧
      schema.diagnose dogQuery = [] ∧ ¬ schema.IdentifiesByKey := by
  have loaded : (Schema.ofText? namelessText).map (fun schema =>
      (objectName? schema "Query", objectName? schema "Dog")) = some (some "", some "") := by
    decide +kernel
  have valid : (Schema.ofText? namelessText).map (fun schema => schema.diagnose dogQuery) =
      some [] := by
    simp only [Schema.diagnose, Schema.validate, dogQuery, documentFindings_operation,
      operationFindings, selectionsFindings, selectionFindings, Operation.selections_ofList,
      InlineFragment.selections_ofList, FieldSelection.selections_named]
    decide +kernel
  obtain ⟨schema, hs, hn⟩ := Option.map_eq_some_iff.1 loaded
  obtain ⟨other, ho, hd⟩ := Option.map_eq_some_iff.1 valid
  cases hs.symm.trans ho
  obtain ⟨query, hq, hqn⟩ := exists_object_of_objectName? (congrArg Prod.fst hn)
  obtain ⟨dog, hdog, hdn⟩ := exists_object_of_objectName? (congrArg Prod.snd hn)
  refine ⟨schema, hs, hd, ?_⟩
  intro h
  have different : "Query" ≠ "Dog" := by decide
  exact h.separatesObjects _ _ _ _ different hq hdog (hqn.trans hdn.symm)

end GraphQL
