import GraphQL.Proofs.Json.Record
import GraphQL.Proofs.Subscription.Relabelling
import GraphQL.Proofs.Subscription.SingleField

/-!
# Subscriptions — fields under one response key

Fields that share a response key count once, and the first of them is the root field.
Neither validation nor the choice asks whether the others could be merged with it, so
the root field may have another name or other arguments than they. Main statement: the
root field has the name of the first one and its arguments, and so those of every field
that gives the same literals, in whatever order its arguments are written.
-/

namespace GraphQL

/-- The literals of the arguments with a name, without their positions. -/
def Argument.literals (arguments : List Argument) (name : String) : List Literal :=
  (arguments.filter fun argument => argument.name.value == name).map
    fun argument => argument.value.relabel fun _ => .unknown

namespace Subscription

variable {operation : Operation} {table : FragmentTable} {values : Record} {root : RootField}

/-! ## Arguments in another order -/

/-- The value of an argument is the last that its literals give. -/
theorem get?_argumentValues_eq_getLast? (env : String → Option Json) (arguments : List Argument)
    (name : String) :
    (argumentValues env arguments).get? name =
      ((Argument.literals arguments name).filterMap (Literal.value? env)).getLast? := by
  have unplaced : (Literal.value? env ∘ fun argument : Argument =>
      argument.value.relabel fun _ => .unknown) = fun argument => argument.value.value? env :=
    funext fun argument => argument.value.value?_relabel _ env
  rw [argumentValues, Record.get?_ofList, ← List.getLast?_map, Argument.literals,
    List.filterMap_map, unplaced, List.filterMap_filter, List.filter_filterMap, List.map_filterMap]
  congr 2
  funext argument
  cases argument.value.value? env with
  | none => simp
  | some value => by_cases hn : argument.name.value = name <;> simp [hn, Option.filter]

/-- Arguments with the same literals under every name have the same values: the order of
arguments with different names does not matter. -/
theorem argumentValues_congr (env : String → Option Json) {arguments others : List Argument}
    (h : ∀ name, Argument.literals arguments name = Argument.literals others name) :
    argumentValues env arguments = argumentValues env others := by
  have ordered : ∀ arguments, (argumentValues env arguments).Ordered :=
    fun _ => Record.ofList_ordered _
  refine (ordered arguments).ext (ordered others) fun name => ?_
  rw [get?_argumentValues_eq_getLast?, get?_argumentValues_eq_getLast?, h]

/-! ## The root field and the others -/

/-- **One key, one field**: all fields at the root have the response key of the root field,
so it is the name of those that have no other. The root field is made of the first of them: it
has the name of that one, and the arguments of every one with the same literals. -/
theorem rootField_merges (operation : Operation) (document : Document) (values : Record)
    (root : RootField) (h : rootField operation (.ofDocument document) values = .ok root) :
    (∀ field, AtRoot (.ofDocument document) operation.selections field →
      field.responseKey = root.responseKey ∧
        (field.aliasName = none → field.name.value = root.responseKey)) ∧
    ∃ first, (∀ other, IsFirst (.ofDocument document) operation.selections other ↔
        other = first) ∧
      root = rootOf operation values first ∧ root.name = first.name.value ∧
      ∀ field, AtRoot (.ofDocument document) operation.selections field →
        (∀ name, Argument.literals first.arguments name =
          Argument.literals field.arguments name) →
        argumentValues (environment values operation.variableDefinitions) field.arguments =
          root.arguments := by
  have single : SingleKey (AtRoot (.ofDocument document) operation.selections) := by
    by_contra hn
    cases h.symm.trans (rootField_of_not_singleKey values hn)
  obtain ⟨first, hf, hr⟩ := rootField_of_singleKey values single
  obtain rfl : root = rootOf operation values first := Except.ok.inj (h.symm.trans hr)
  have hroot : AtRoot (.ofDocument document) operation.selections first := hf.atRoot
  refine ⟨fun field hm => ?_, first, fun _ => hf.iff_eq, rfl, rfl, fun field _ same => ?_⟩
  · have key : field.responseKey = first.responseKey := single.eq hm hroot
    refine ⟨key, fun hnone => ?_⟩
    rw [rootOf, ← key, FieldSelection.responseKey, hnone, Option.getD_none]
  · exact (argumentValues_congr _ same).symm

/-- Some lines, with the arguments in their order. -/
def someLines : FieldSelection :=
  (((FieldSelection.named "lines").withArgument "from" (.int 1 ⟨1, 20⟩)).withArgument "to"
    (.int 2 ⟨1, 28⟩)).renamed "line"

/-- The same lines, with the arguments in the other order. -/
def sameLines : FieldSelection :=
  (((FieldSelection.named "lines").withArgument "to" (.int 2 ⟨1, 48⟩)).withArgument "from"
    (.int 1 ⟨1, 56⟩)).renamed "line"

/-- A subscription with both fields, the second one in an inline fragment. -/
def linesTwice : Operation :=
  .ofList .subscription [.field someLines, .inline (.ofList none [.field sameLines])]

theorem literals_someLines (name : String) : Argument.literals someLines.arguments name =
    Argument.literals sameLines.arguments name := by
  by_cases hf : "from" = name
  · subst hf
    rfl
  by_cases ht : "to" = name
  · subst ht
    rfl
  · simp [Argument.literals, someLines, sameLines, FieldSelection.renamed,
      FieldSelection.withArgument, FieldSelection.named, hf, ht]

/-- The second field is subscribed to with the first one. -/
theorem linesTwice_merges :
    rootField linesTwice (.ofDocument ⟨[.operation linesTwice]⟩) [] =
        .ok ⟨"lines", "line", [("from", .int 1), ("to", .int 2)], none⟩ ∧
      AtRoot (.ofDocument ⟨[.operation linesTwice]⟩) linesTwice.selections sameLines ∧
      argumentValues (environment [] []) sameLines.arguments =
        [("from", .int 1), ("to", .int 2)] := by
  have collected : expandedFields (.ofDocument ⟨[.operation linesTwice]⟩) [] linesTwice.selections =
      [someLines, sameLines] := by cbv
  have chosen : rootField linesTwice (.ofDocument ⟨[.operation linesTwice]⟩) [] =
      .ok ⟨"lines", "line", [("from", .int 1), ("to", .int 2)], none⟩ := by
    rw [rootField_eq_expanded, collected]
    rfl
  have below : AtRoot (.ofDocument ⟨[.operation linesTwice]⟩) linesTwice.selections sameLines :=
    .inline (List.mem_cons_of_mem _ List.mem_cons_self) (.written List.mem_cons_self)
  obtain ⟨-, first, hf, -, -, same⟩ := rootField_merges linesTwice _ [] _ chosen
  obtain rfl : someLines = first := (hf _).1 (isFirst_of_head? (by rw [collected]; rfl))
  exact ⟨chosen, below, same _ below literals_someLines⟩

/-- A schema with two subscriptions. -/
def lineSchema : Schema :=
  (Schema.empty.withType (.object (((ObjectType.named "Subscription").withField
    (.ofType "newest" (.named "String"))).withField
      (.ofType "oldest" (.named "String"))))).withBuiltins

/-- A subscription to both under one response key. -/
def twoLines : Operation := .ofList .subscription [.field firstLine, .field secondLine]

/-- Nothing is wrong with it, and only one of them becomes the root field. -/
theorem not_all_root_fields_called :
    ¬ ∀ (schema : Schema) (document : Document) (operation : Operation) (values : Record)
      (root : RootField), document.fragmentProblems = [] →
      (schema.validate document).diagnostics = [] → operation ∈ document.operations →
      operation.kind = .subscription →
      rootField operation (.ofDocument document) values = .ok root →
      ∀ field, AtRoot (.ofDocument document) operation.selections field →
        field.name.value = root.name ∧
          argumentValues (environment values operation.variableDefinitions) field.arguments =
            root.arguments := by
  intro h
  have named := h lineSchema ⟨[.operation twoLines]⟩ twoLines [] ⟨"newest", "line", [], none⟩
    (by cbv) (by cbv) List.mem_cons_self rfl (by cbv) secondLine
    (.written (List.mem_cons_of_mem _ List.mem_cons_self))
  exact absurd named.1 (by decide)

end Subscription

end GraphQL
