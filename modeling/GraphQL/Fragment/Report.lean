import GraphQL.Diagnostic
import GraphQL.Fragment.Table

/-!
What is wrong with the fragments of a document as a whole: names defined
twice, spreads of names that no fragment defines, and fragments from which a
spread leads back to themselves. Nesting does not matter here, so a selection
list counts only for the spreads in it.
-/

namespace GraphQL

mutual

/-- The spreads in a selection at any depth, in document order. -/
def Selection.spreads : Selection → List FragmentSpread
  | .field ⟨_, _, _, none, _⟩ => []
  | .field ⟨_, _, _, some ⟨selections, _⟩, _⟩ => spreadsOfList selections
  | .spread named => [named]
  | .inline ⟨_, ⟨selections, _⟩, _⟩ => spreadsOfList selections

/-- The spreads in a list of selections at any depth, in document order. -/
def Selection.spreadsOfList : List Selection → List FragmentSpread
  | [] => []
  | selection :: selections => selection.spreads ++ spreadsOfList selections

end

namespace FragmentTable

/-- The diagnostic for a second definition of a name. -/
def duplicate (fragment : FragmentDefinition) : Diagnostic :=
  .located ("There can be only one fragment named \"" ++ fragment.name.value ++ "\".") fragment.name.pos

/-- The diagnostic for a spread of a name that no fragment defines. -/
def unknown (spread : FragmentSpread) : Diagnostic :=
  .located ("Unknown fragment \"" ++ spread.name.value ++ "\".") spread.pos

/-- The diagnostic for a spread that leads a fragment back to itself. -/
def cycle (name : String) (p : Position) : Diagnostic :=
  .located ("Cannot spread fragment \"" ++ name ++ "\" within itself.") p

/-- One diagnostic for each definition whose name was defined before. -/
def duplicates (seen : List String) : List FragmentDefinition → List Diagnostic
  | [] => []
  | fragment :: fragments =>
    let name := fragment.name.value
    (if seen.contains name then [duplicate fragment] else []) ++ duplicates (name :: seen) fragments

/-- One diagnostic for each spread of a name that is not in the table. -/
def unknownSpreads (table : FragmentTable) (selections : List Selection) : List Diagnostic :=
  ((Selection.spreadsOfList selections).filter fun spread =>
    (table.get? spread.name.value).isNone).map unknown

/-- The position of the first spread of `root` that is met when spreads are
followed depth first, each fragment at most once on the way. The path names
the fragments being expanded. It is an argument: a name is pushed by passing the longer
path down, and popped by going on with the path that was given. A walk that pushes and
pops on one path finds the same (`evaluates_searchCall`). -/
def findReturn (table : FragmentTable) (root : String) (path : List String) :
    List FragmentSpread → Option Position
  | [] => none
  | spread :: spreads =>
    let name := spread.name.value
    if name = root then some spread.pos
    else if hp : name ∈ path then findReturn table root path spreads
    else match hf : table.get? name with
      | none => findReturn table root path spreads
      | some fragment =>
        have := unvisited_cons_lt hf hp
        (findReturn table root (name :: path) (Selection.spreadsOfList fragment.selections)).or
          (findReturn table root path spreads)
termination_by spreads => (table.unvisited path, spreads)

/-- One diagnostic for each name that is not reported yet and leads back to itself. -/
def cycles (table : FragmentTable) (reported : List String) : List FragmentDefinition → List Diagnostic
  | [] => []
  | fragment :: fragments =>
    let name := fragment.name.value
    if reported.contains name then cycles table reported fragments
    else match findReturn table name [name] (Selection.spreadsOfList fragment.selections) with
      | some p => cycle name p :: cycles table (name :: reported) fragments
      | none => cycles table reported fragments

end FragmentTable

/-- What is wrong with the fragments of a document: repeated names, unknown
spreads in operations and then in fragments, and cycles. -/
def Document.fragmentProblems (document : Document) : List Diagnostic :=
  let table := FragmentTable.ofDocument document
  FragmentTable.duplicates [] document.fragments ++
    document.operations.flatMap (fun operation => table.unknownSpreads operation.selections) ++
    document.fragments.flatMap (fun fragment => table.unknownSpreads fragment.selections) ++
    table.cycles [] document.fragments

end GraphQL
