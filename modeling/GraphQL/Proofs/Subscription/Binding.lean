import GraphQL.Proofs.Json.Record
import GraphQL.Subscription.Binding
import Mathlib.Data.List.Basic

/-!
# Subscriptions — what literals are bound to

A literal becomes JSON under the values that a request gives its variables and
the defaults that an operation declares for them. Only a literal that is itself
a variable can be without a value (`Unbound`), and then it depends on where it
stands what becomes of it: an item of a list becomes `null`, a member of an
object or an argument is left out, and an earlier one of its name may be kept
instead. Main statement: all these rules together (`materializes`), and that
nothing but the variables which occur in a literal decides its value.
-/

namespace GraphQL

/-- A variable occurs in a literal, at any depth. -/
inductive Literal.Mentions (name : String) : Literal → Prop
  | var {occurrence : Name} (hn : occurrence.value = name) : Mentions name (.var occurrence)
  | item {items : List Literal} {item : Literal} {p : Position} (hm : item ∈ items)
      (h : item.Mentions name) : Mentions name (.list items p)
  | field {fields : List (Name × Literal)} {key : Name} {literal : Literal} {p : Position}
      (hm : (key, literal) ∈ fields) (h : literal.Mentions name) :
      Mentions name (.object fields p)

/-! ## Lists and members -/

theorem Literal.itemValues_eq (env : String → Option Json) (items : List Literal) :
    Literal.itemValues env items = items.map fun item => (item.value? env).getD .null := by
  induction items with
  | nil => rfl
  | cons item items ih => rw [Literal.itemValues, ih, List.map_cons]

/-- The values of named literals that have one. -/
def memberValues (env : String → Option Json) (entries : List (String × Literal)) :
    List (String × Json) :=
  entries.filterMap fun entry => (entry.2.value? env).map (Prod.mk entry.1)

/-- The fields of an object literal by name. -/
def Literal.namedFields (fields : List (Name × Literal)) : List (String × Literal) :=
  fields.map fun field => (field.1.value, field.2)

/-- The literals of arguments by name. -/
def Argument.named (arguments : List Argument) : List (String × Literal) :=
  arguments.map fun argument => (argument.name.value, argument.value)

theorem Literal.fieldValues_eq (env : String → Option Json) (fields : List (Name × Literal)) :
    Literal.fieldValues env fields = memberValues env (Literal.namedFields fields) := by
  induction fields with
  | nil => rfl
  | cons field fields ih =>
    obtain ⟨name, literal⟩ := field
    rw [Literal.fieldValues, ih]
    cases hv : literal.value? env with
    | none => simp [memberValues, Literal.namedFields, hv]
    | some value => simp [memberValues, Literal.namedFields, hv]

theorem memberValues_congr {env other : String → Option Json} {entries : List (String × Literal)}
    (h : ∀ entry ∈ entries, entry.2.value? env = entry.2.value? other) :
    memberValues env entries = memberValues other entries :=
  List.filterMap_congr fun entry hm => by rw [h entry hm]

/-- A literal has the same value wherever its own variables have the same. -/
theorem Literal.value?_congr {env other : String → Option Json} (literal : Literal)
    (h : ∀ name, literal.Mentions name → env name = other name) :
    literal.value? env = literal.value? other := by
  match literal, h with
  | .var name, h => exact h name.value (.var rfl)
  | .list items p, h =>
    have each : ∀ item ∈ items, item.value? env = item.value? other := by
      intro item hm
      have := List.sizeOf_lt_of_mem hm
      exact item.value?_congr fun name hn => h name (.item hm hn)
    rw [Literal.value?, Literal.value?, Literal.itemValues_eq, Literal.itemValues_eq]
    exact congrArg (some ∘ Json.array) (List.map_congr_left fun item hm => by rw [each item hm])
  | .object fields p, h =>
    have each : ∀ entry ∈ namedFields fields, entry.2.value? env = entry.2.value? other := by
      intro entry he
      obtain ⟨⟨key, inner⟩, hm, rfl⟩ := List.mem_map.1 he
      have smaller : sizeOf inner < sizeOf fields := by
        have := List.sizeOf_lt_of_mem hm
        rw [Prod.mk.sizeOf_spec] at this
        omega
      exact inner.value?_congr fun name hn => h name (.field hm hn)
    rw [Literal.value?, Literal.value?, Literal.fieldValues_eq, Literal.fieldValues_eq,
      memberValues_congr each]
  | .int _ _, _ | .float _ _, _ | .string _ _, _ | .bool _ _, _ | .null _, _ | .enum _, _ => rfl
termination_by sizeOf literal

namespace Subscription

theorem argumentValues_eq (env : String → Option Json) (arguments : List Argument) :
    argumentValues env arguments = Record.ofList (memberValues env (Argument.named arguments)) := by
  rw [argumentValues, memberValues, Argument.named, List.filterMap_map]
  rfl

/-! ## Variables -/

/-- The default that is declared for a variable: that of the first definition of its name. -/
def declaredDefault? (definitions : List VariableDefinition) (name : String) : Option Literal :=
  (definitions.find? fun definition => definition.name.value == name).bind
    VariableDefinition.default?

/-- Nothing has a value if nothing is given and nothing is declared. -/
theorem environment_nil : environment [] [] = fun _ => none := rfl

/-- A variable has the value that is given for it, else that of its default,
in which nothing is given and nothing is declared. -/
theorem environment_eq (values : Record) (definitions : List VariableDefinition) (name : String) :
    environment values definitions name = (values.get? name).or
      ((declaredDefault? definitions name).bind (Literal.value? (environment [] []))) := by
  rw [environment, defaultValue?, declaredDefault?, environment_nil]
  cases definitions.find? fun definition => definition.name.value == name <;> rfl

/-- A literal is itself a variable without a value: the request gives none, and
a default, if one is declared, has none. -/
def Unbound (values : Record) (definitions : List VariableDefinition) (literal : Literal) : Prop :=
  ∃ name, literal = .var name ∧ values.get? name.value = none ∧
    ∀ default, declaredDefault? definitions name.value = some default →
      default.value? (environment [] []) = none

variable {values : Record} {definitions : List VariableDefinition} {literal : Literal}

/-- **Only an unbound variable has no value.** -/
theorem value?_eq_none_iff :
    literal.value? (environment values definitions) = none ↔
      Unbound values definitions literal := by
  constructor
  · intro h
    cases literal with
    | var name =>
      rw [Literal.value?, environment_eq, Option.or_eq_none_iff, Option.bind_eq_none_iff] at h
      exact ⟨name, rfl, h⟩
    | _ => simp [Literal.value?] at h
  · rintro ⟨name, rfl, h⟩
    rw [Literal.value?, environment_eq, Option.or_eq_none_iff, Option.bind_eq_none_iff]
    exact h

/-! ## What is kept -/

/-- What a record keeps of named literals: for each name the value of the last of
its literals that is no unbound variable. The names stand in order, none twice. -/
structure Keeps (values : Record) (definitions : List VariableDefinition)
    (entries : List (String × Literal)) (record : Record) : Prop where
  ordered : record.Ordered
  mem_iff : ∀ name value, (name, value) ∈ record ↔ ∃ before literal after,
    entries = before ++ (name, literal) :: after ∧
    literal.value? (environment values definitions) = some value ∧
    ∀ other ∈ after, other.1 = name → Unbound values definitions other.2

theorem mem_map_fst_memberValues_iff {env : String → Option Json}
    {entries : List (String × Literal)} {name : String} :
    name ∈ (memberValues env entries).map Prod.fst ↔
      ∃ entry ∈ entries, entry.1 = name ∧ entry.2.value? env ≠ none := by
  constructor
  · intro hm
    obtain ⟨member, hv, rfl⟩ := List.mem_map.1 hm
    obtain ⟨entry, he, hv⟩ := List.mem_filterMap.1 hv
    obtain ⟨value, hs, rfl⟩ := Option.map_eq_some_iff.1 hv
    exact ⟨entry, he, rfl, by simp [hs]⟩
  · rintro ⟨entry, he, rfl, hv⟩
    obtain ⟨value, hv⟩ := Option.ne_none_iff_exists'.1 hv
    exact List.mem_map.2 ⟨(entry.1, value), List.mem_filterMap.2 ⟨entry, he, by rw [hv]; rfl⟩, rfl⟩

theorem keeps_ofList (values : Record) (definitions : List VariableDefinition)
    (entries : List (String × Literal)) :
    Keeps values definitions entries
      (Record.ofList (memberValues (environment values definitions) entries)) where
  ordered := Record.ofList_ordered _
  mem_iff name value := by
    rw [Record.mem_ofList_iff]
    constructor
    · rintro ⟨before, after, hs, hn⟩
      obtain ⟨first, rest, rfl, -, hr⟩ := List.filterMap_eq_append_iff.1 hs
      obtain ⟨skipped, entry, later, rfl, hk, he, rfl⟩ := List.filterMap_eq_cons_iff.1 hr
      obtain ⟨_, hv, heq⟩ := Option.map_eq_some_iff.1 he
      cases heq
      refine ⟨first ++ skipped, entry.2, later, (List.append_assoc _ _ _).symm, hv, ?_⟩
      intro other ho hname
      rw [← value?_eq_none_iff]
      by_contra hsome
      exact hn (mem_map_fst_memberValues_iff.2 ⟨other, ho, hname, hsome⟩)
    · rintro ⟨before, literal, after, rfl, hv, hu⟩
      refine ⟨memberValues (environment values definitions) before,
        memberValues (environment values definitions) after, ?_, ?_⟩
      · simp [memberValues, hv]
      · intro hm
        obtain ⟨other, ho, hname, hsome⟩ := mem_map_fst_memberValues_iff.1 hm
        exact hsome (value?_eq_none_iff.2 (hu other ho hname))

/-! ## The conversion -/

/-- How literals become JSON under the values that a request gives and the
defaults that an operation declares. What a request gives counts, an explicit
`null` too; what it does not give is the default, converted with nothing given
and nothing declared. A list has an item for each of its literals, and `null`
for one that is unbound; objects and arguments keep the last literal of a name
that is bound. -/
structure Materializes (values : Record) (definitions : List VariableDefinition) : Prop where
  unbound : ∀ literal : Literal, literal.value? (environment values definitions) = none ↔
    Unbound values definitions literal
  given : ∀ (name : Name) (value : Json), values.get? name.value = some value →
    (Literal.var name).value? (environment values definitions) = some value
  declared : ∀ name : Name, values.get? name.value = none →
    (Literal.var name).value? (environment values definitions) =
      (declaredDefault? definitions name.value).bind (Literal.value? (environment [] []))
  items : ∀ (items : List Literal) (p : Position), ∃ aligned : List Json,
    (Literal.list items p).value? (environment values definitions) = some (.array aligned) ∧
    aligned.length = items.length ∧
    ∀ (i : Nat) (item : Literal), items[i]? = some item →
      (Unbound values definitions item ∧ aligned[i]? = some .null) ∨
      ∃ value, item.value? (environment values definitions) = some value ∧
        aligned[i]? = some value
  fields : ∀ (fields : List (Name × Literal)) (p : Position), ∃ record : Record,
    (Literal.object fields p).value? (environment values definitions) = some (.object record) ∧
    Keeps values definitions (Literal.namedFields fields) record
  arguments : ∀ arguments : List Argument, Keeps values definitions (Argument.named arguments)
    (argumentValues (environment values definitions) arguments)

theorem materializes (values : Record) (definitions : List VariableDefinition) :
    Materializes values definitions where
  unbound _ := value?_eq_none_iff
  given name value h := by rw [Literal.value?, environment_eq, h, Option.some_or]
  declared name h := by rw [Literal.value?, environment_eq, h, Option.none_or]
  items items p := by
    refine ⟨_, rfl, ?_, fun i item hi => ?_⟩
    · rw [Literal.itemValues_eq, List.length_map]
    · rw [Literal.itemValues_eq, List.getElem?_map, hi, Option.map_some]
      cases hv : item.value? (environment values definitions) with
      | none => exact .inl ⟨value?_eq_none_iff.1 hv, rfl⟩
      | some value => exact .inr ⟨value, rfl, rfl⟩
  fields fields p := by
    refine ⟨_, rfl, ?_⟩
    rw [Literal.fieldValues_eq]
    exact keeps_ofList values definitions _
  arguments arguments := by
    rw [argumentValues_eq]
    exact keeps_ofList values definitions _

/-! ## What the conversion depends on -/

variable {other : Record}

/-- A literal has the same value under values that agree on its own variables. -/
theorem value?_eq_of_agree (definitions : List VariableDefinition) (literal : Literal)
    (h : ∀ name, literal.Mentions name → values.get? name = other.get? name) :
    literal.value? (environment values definitions) =
      literal.value? (environment other definitions) := by
  refine literal.value?_congr fun name hn => ?_
  rw [environment, environment, h name hn]

/-- Arguments have the same values under values that agree on the variables in them. -/
theorem argumentValues_eq_of_agree (definitions : List VariableDefinition)
    {arguments : List Argument} (h : ∀ name, ∀ argument ∈ arguments,
      argument.value.Mentions name → values.get? name = other.get? name) :
    argumentValues (environment values definitions) arguments =
      argumentValues (environment other definitions) arguments := by
  rw [argumentValues_eq, argumentValues_eq, memberValues_congr]
  intro entry hm
  obtain ⟨argument, ha, rfl⟩ := List.mem_map.1 hm
  exact value?_eq_of_agree definitions argument.value fun name hn => h name argument ha hn

end Subscription

end GraphQL
