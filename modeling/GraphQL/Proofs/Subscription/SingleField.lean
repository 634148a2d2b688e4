import GraphQL.Document.Build
import GraphQL.Proofs.Subscription.RootFields
import GraphQL.Proofs.Validation.Expansion

/-!
# Subscriptions — the single field

When an operation has a root field, and which one. It is chosen out of the collected
fields, and the choice depends only on which fields there are and on which of them comes
first. So it is the same out of all fields at the root. Main statement: there is a root
field exactly when these have a single response key, and it is made of the first of them
in depth-first document order.
-/

namespace GraphQL.Subscription

/-- The root field that a field of an operation makes. -/
def rootOf (operation : Operation) (values : Record) (field : FieldSelection) : RootField where
  name := field.name.value
  responseKey := field.responseKey
  arguments := argumentValues (environment values operation.variableDefinitions) field.arguments
  operationName := operation.name.map Name.value

/-- The choice of the root field: the first field, if the others share its response key. -/
def chooseRoot (operation : Operation) (values : Record) :
    List FieldSelection → Except Diagnostic RootField
  | [] => .error (singleFieldDiagnostic operation)
  | first :: others =>
    if others.all fun field => field.responseKey == first.responseKey then
      .ok (rootOf operation values first)
    else .error (singleFieldDiagnostic operation)

/-- Some fields have exactly one response key. -/
def SingleKey (fields : FieldSelection → Prop) : Prop :=
  ∃! key, ∃ field, fields field ∧ field.responseKey = key

variable {operation : Operation} {table : FragmentTable} {values : Record} {root : RootField}
  {first : FieldSelection} {fields others : List FieldSelection}

/-! ## The choice -/

theorem SingleKey.eq {own : FieldSelection → Prop} {field other : FieldSelection}
    (h : SingleKey own) (hf : own field) (ho : own other) :
    field.responseKey = other.responseKey :=
  h.unique ⟨field, hf, rfl⟩ ⟨other, ho, rfl⟩

theorem not_singleKey_nil : ¬ SingleKey (· ∈ []) := by
  rintro ⟨key, ⟨field, hm, -⟩, -⟩
  cases hm

theorem singleKey_cons_iff :
    SingleKey (· ∈ first :: others) ↔ ∀ field ∈ others, field.responseKey = first.responseKey := by
  constructor
  · exact fun h field hm => h.eq (List.mem_cons_of_mem _ hm) List.mem_cons_self
  · intro h
    refine ⟨first.responseKey, ⟨first, List.mem_cons_self, rfl⟩, ?_⟩
    rintro key ⟨field, hm, rfl⟩
    rcases List.mem_cons.1 hm with rfl | hm
    · rfl
    · exact h field hm

theorem chooseRoot_of_singleKey (operation : Operation) (values : Record)
    (h : SingleKey (· ∈ fields)) : ∃ first, fields.head? = some first ∧
      chooseRoot operation values fields = .ok (rootOf operation values first) := by
  cases fields with
  | nil => exact absurd h not_singleKey_nil
  | cons first others =>
    refine ⟨first, rfl, ?_⟩
    rw [chooseRoot, if_pos]
    simpa using singleKey_cons_iff.1 h

theorem chooseRoot_of_not_singleKey (operation : Operation) (values : Record)
    (h : ¬ SingleKey (· ∈ fields)) :
    chooseRoot operation values fields = .error (singleFieldDiagnostic operation) := by
  cases fields with
  | nil => rfl
  | cons first others =>
    rw [chooseRoot, if_neg]
    simpa using mt singleKey_cons_iff.2 h

/-- Only the first of the fields and which there are matters. -/
theorem chooseRoot_congr (operation : Operation) (values : Record)
    (hh : fields.head? = others.head?) (hm : ∀ field, field ∈ fields ↔ field ∈ others) :
    chooseRoot operation values fields = chooseRoot operation values others := by
  have same : SingleKey (· ∈ fields) ↔ SingleKey (· ∈ others) := by simp only [hm]
  by_cases h : SingleKey (· ∈ fields)
  · obtain ⟨first, hf, hc⟩ := chooseRoot_of_singleKey operation values h
    obtain ⟨first', hf', hc'⟩ := chooseRoot_of_singleKey operation values (same.1 h)
    obtain rfl : first = first' := Option.some.inj (hf.symm.trans (hh.trans hf'))
    rw [hc, hc']
  · rw [chooseRoot_of_not_singleKey operation values h,
      chooseRoot_of_not_singleKey operation values (mt same.2 h)]

/-! ## The root field -/

theorem rootField_eq_chooseRoot (operation : Operation) (table : FragmentTable) (values : Record) :
    rootField operation table values =
      chooseRoot operation values (rootSelections table [] operation.selections) := by
  rw [rootField]
  cases rootSelections table [] operation.selections <;> rfl

/-- The root field is chosen as if every spread were expanded where it stands. -/
theorem rootField_eq_expanded (operation : Operation) (table : FragmentTable) (values : Record) :
    rootField operation table values =
      chooseRoot operation values (expandedFields table [] operation.selections) := by
  rw [rootField_eq_chooseRoot]
  exact chooseRoot_congr operation values (head?_rootSelections [] operation.selections)
    fun _ => mem_rootSelections_iff

theorem mem_expandedFields_eq (table : FragmentTable) (selections : List Selection) :
    (· ∈ expandedFields table [] selections) = AtRoot table selections :=
  funext fun _ => propext mem_expandedFields_iff

theorem rootField_of_singleKey (values : Record)
    (h : SingleKey (AtRoot table operation.selections)) :
    ∃ first, IsFirst table operation.selections first ∧
      rootField operation table values = .ok (rootOf operation values first) := by
  rw [← mem_expandedFields_eq] at h
  obtain ⟨first, hf, hc⟩ := chooseRoot_of_singleKey operation values h
  exact ⟨first, isFirst_of_head? hf, (rootField_eq_expanded operation table values).trans hc⟩

theorem rootField_of_not_singleKey (values : Record)
    (h : ¬ SingleKey (AtRoot table operation.selections)) :
    rootField operation table values = .error (singleFieldDiagnostic operation) := by
  rw [← mem_expandedFields_eq] at h
  exact (rootField_eq_expanded operation table values).trans
    (chooseRoot_of_not_singleKey operation values h)

/-- **The single field**: whatever the fragments, cyclic and missing ones included, an
operation has a root field exactly when the fields at its root have one response key, and
the root field is that of the first of them; else the error points to the operation. If no
fragment leads back to itself, it is chosen as well out of the fields of the full expansion. -/
theorem rootField_single_key (operation : Operation) (document : Document) (values : Record) :
    (SingleKey (AtRoot (.ofDocument document) operation.selections) →
      ∃ first, (∀ other, IsFirst (.ofDocument document) operation.selections other ↔
          other = first) ∧
        rootField operation (.ofDocument document) values = .ok (rootOf operation values first)) ∧
    (¬ SingleKey (AtRoot (.ofDocument document) operation.selections) →
      rootField operation (.ofDocument document) values =
          .error (singleFieldDiagnostic operation) ∧
        (singleFieldDiagnostic operation).locations = [operation.pos]) ∧
    (document.Acyclic →
      ∃ fields, (∀ others, Unfolds (.ofDocument document) operation.selections others ↔
          others = fields) ∧
        rootField operation (.ofDocument document) values =
          chooseRoot operation values fields) := by
  refine ⟨fun h => ?_, fun h => ⟨rootField_of_not_singleKey values h, rfl⟩, fun hacyclic => ?_⟩
  · obtain ⟨first, hf, hr⟩ := rootField_of_singleKey values h
    exact ⟨first, fun _ => hf.iff_eq, hr⟩
  · have hu := unfolds_expandedFields hacyclic (FragmentTable.ahead_nil operation.selections)
    exact ⟨_, fun _ => ⟨fun ho => ho.unique hu, fun he => he ▸ hu⟩,
      rootField_eq_expanded operation _ values⟩

/-- A field under another name. -/
def firstLine : FieldSelection := (FieldSelection.named "newest").renamed "line"

/-- Another field under that name. -/
def secondLine : FieldSelection := (FieldSelection.named "oldest").renamed "line"

/-- Two fragments that spread each other, the inner one before its field. -/
def circling : Document :=
  ⟨[.fragment (.ofList "Around" "Subscription" [.spread (.named "Back"), .field firstLine]),
    .fragment (.ofList "Back" "Subscription" [.spread (.named "Around"),
      .inline (.ofList none [.field secondLine])])]⟩

/-- A subscription to a fragment that spreads itself in another one. -/
def entering : Operation :=
  .ofList .subscription [.spread (.named "Missing"), .spread (.named "Around")]

/-- A subscription to a fragment, and to the one that it spreads once more. -/
def sharing : Operation :=
  .ofList .subscription [.spread (.named "Outer"), .spread (.named "Inner")]

/-- The inner fragment of the circle has the first field, a subscription without fields is
refused, and the field of a fragment that is spread twice may count twice. -/
theorem circling_single_key :
    (SingleKey (AtRoot (.ofDocument circling) entering.selections) ∧
      rootField entering (.ofDocument circling) [] = .ok ⟨"oldest", "line", [], none⟩) ∧
    (¬ SingleKey (AtRoot (.ofDocument circling) (Operation.ofList .subscription []).selections) ∧
      rootField (.ofList .subscription []) (.ofDocument circling) [] =
        .error (singleFieldDiagnostic (.ofList .subscription []))) ∧
    (nestedSpreads.Acyclic ∧
      rootField sharing (.ofDocument nestedSpreads) [] =
        chooseRoot sharing [] [.named "barks", .named "barks"]) := by
  have entered : expandedFields (.ofDocument circling) [] entering.selections =
      [secondLine, firstLine] := by cbv
  have nothing : expandedFields (.ofDocument circling) []
      (Operation.ofList .subscription []).selections = [] := by cbv
  have twice : expandedFields (.ofDocument nestedSpreads) [] sharing.selections =
      [.named "barks", .named "barks"] := by cbv
  have single : SingleKey (AtRoot (.ofDocument circling) entering.selections) := by
    rw [← mem_expandedFields_eq, entered]
    exact singleKey_cons_iff.2 (by decide)
  have empty : ¬ SingleKey (AtRoot (.ofDocument circling)
      (Operation.ofList .subscription []).selections) := by
    rw [← mem_expandedFields_eq, nothing]
    exact not_singleKey_nil
  refine ⟨⟨single, ?_⟩, ⟨empty, ?_⟩, nestedSpreads_acyclic, ?_⟩
  · obtain ⟨first, hf, hr⟩ := (rootField_single_key entering circling []).1 single
    have second : IsFirst (.ofDocument circling) entering.selections secondLine :=
      isFirst_of_head? (by rw [entered]; rfl)
    rw [hr, ← (hf secondLine).1 second]
    rfl
  · exact ((rootField_single_key _ circling []).2.1 empty).1
  · obtain ⟨fields, hu, hr⟩ := (rootField_single_key sharing nestedSpreads []).2.2
      nestedSpreads_acyclic
    have unfolds := unfolds_expandedFields nestedSpreads_acyclic
      (FragmentTable.ahead_nil sharing.selections)
    rw [hr, ← (hu _).1 unfolds, twice]

end GraphQL.Subscription
