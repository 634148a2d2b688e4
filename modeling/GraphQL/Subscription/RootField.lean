import GraphQL.Diagnostic
import GraphQL.Fragment.Table
import GraphQL.Subscription.Binding

/-!
The root field of a subscription. Its selections are flattened through inline
fragments and spreads, each fragment once; all fields found must share one
response key, and the first of them is the root field.
-/

namespace GraphQL.Subscription

/-- The field that a subscription selects, with the values of its arguments. -/
structure RootField where
  name : String
  responseKey : String
  arguments : Record
  operationName : Option String

namespace RootField

/-- A root field without arguments under its own name. -/
def named (name : String) : RootField := ⟨name, name, [], none⟩

/-- The root field under another response key. -/
def withKey (field : RootField) (key : String) : RootField := { field with responseKey := key }

/-- The root field with one more argument, or with an argument replaced. -/
def withArgument (field : RootField) (name : String) (value : Json) : RootField :=
  { field with arguments := field.arguments.put name value }

end RootField

theorem sizeOf_append (xs ys : List Selection) : sizeOf (xs ++ ys) + 1 = sizeOf xs + sizeOf ys := by
  induction xs with
  | nil => simp; omega
  | cons x xs ih => simp; omega

/-- The fields met when a list of selections is worked off from the front. An
inline fragment is replaced by its selections, and so is a spread, unless its
name was met before. -/
def rootSelections (table : FragmentTable) (visited : List String) : List Selection → List FieldSelection
  | [] => []
  | .field field :: pending => field :: rootSelections table visited pending
  | .inline fragment :: pending => rootSelections table visited (fragment.selections ++ pending)
  | .spread spread :: pending =>
    if hv : spread.name.value ∈ visited then rootSelections table visited pending
    else match hf : table.get? spread.name.value with
      | none => rootSelections table visited pending
      | some fragment =>
        have := FragmentTable.unvisited_cons_lt hf hv
        rootSelections table (spread.name.value :: visited) (fragment.selections ++ pending)
termination_by selections => (table.unvisited visited, sizeOf selections)
decreasing_by
  · decreasing_tactic
  · have := sizeOf_append fragment.selections pending
    have := fragment.sizeOf_selections_lt
    apply Prod.Lex.right
    simp
    omega
  · decreasing_tactic
  · decreasing_tactic
  · decreasing_tactic

/-- The equation of the collector at a spread. -/
theorem rootSelections_spread (table : FragmentTable) (visited : List String)
    (spread : FragmentSpread) (pending : List Selection) :
    rootSelections table visited (.spread spread :: pending) =
      if spread.name.value ∈ visited then rootSelections table visited pending
      else (table.get? spread.name.value).elim (rootSelections table visited pending)
        fun fragment =>
          rootSelections table (spread.name.value :: visited) (fragment.selections ++ pending) := by
  rw [rootSelections]
  split
  · rfl
  · split
    · rename_i hf
      simp [hf]
    · rename_i hf
      simp [hf]

/-- The diagnostic for an operation that does not select exactly one field. -/
def singleFieldDiagnostic (operation : Operation) : Diagnostic :=
  let subject := match operation.name with
    | some name => "Subscription \"" ++ name.value ++ "\""
    | none => "Anonymous Subscription"
  .located (subject ++ " must select only one top level field.") operation.pos

/-- The root field of an operation. -/
def rootField (operation : Operation) (table : FragmentTable) (values : Record) :
    Except Diagnostic RootField :=
  match rootSelections table [] operation.selections with
  | [] => .error (singleFieldDiagnostic operation)
  | first :: others =>
    if others.all fun field => field.responseKey == first.responseKey then
      .ok ⟨first.name.value, first.responseKey,
        argumentValues (environment values operation.variableDefinitions) first.arguments,
        operation.name.map Name.value⟩
    else .error (singleFieldDiagnostic operation)

end GraphQL.Subscription
