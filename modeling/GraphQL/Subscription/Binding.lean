import GraphQL.Document.Basic
import GraphQL.Json.Record

/-!
Binding: the JSON values of literals. A variable has the value that the
request gives it, an explicit `null` included, or else its declared default.
A variable with neither is left out of arguments and objects and is `null` in
a list.
-/

namespace GraphQL

mutual

/-- The value of a literal where some variables have values; none for a
variable without one. -/
def Literal.value? (env : String → Option Json) : Literal → Option Json
  | .var name => env name.value
  | .int n _ => some (.int n.toInt)
  | .float x _ => some (.ofFloat x)
  | .string s _ => some (.string s)
  | .bool b _ => some (.bool b)
  | .null _ => some .null
  | .enum name => some (.string name.value)
  | .list items _ => some (.array (Literal.itemValues env items))
  | .object fields _ => some (.object (Record.ofList (Literal.fieldValues env fields)))

/-- The values of list items; one without a value is `null`. -/
def Literal.itemValues (env : String → Option Json) : List Literal → List Json
  | [] => []
  | item :: items => (Literal.value? env item).getD .null :: Literal.itemValues env items

/-- The values of object fields; one without a value is left out. -/
def Literal.fieldValues (env : String → Option Json) : List (Name × Literal) → List (String × Json)
  | [] => []
  | (name, literal) :: fields =>
    match Literal.value? env literal with
    | some value => (name.value, value) :: Literal.fieldValues env fields
    | none => Literal.fieldValues env fields

end

namespace Subscription

/-- The default of a variable: that of its first definition, in which no
variable has a value. -/
def defaultValue? (definitions : List VariableDefinition) (name : String) : Option Json :=
  match definitions.find? fun definition => definition.name.value == name with
  | some definition => definition.default?.bind (Literal.value? fun _ => none)
  | none => none

/-- The values of variables: those of the request, then the defaults. -/
def environment (values : Record) (definitions : List VariableDefinition) (name : String) : Option Json :=
  (values.get? name).or (defaultValue? definitions name)

/-- The values of arguments as a record, of equal names the last. -/
def argumentValues (env : String → Option Json) (arguments : List Argument) : Record :=
  Record.ofList (arguments.filterMap fun argument =>
    (argument.value.value? env).map fun value => (argument.name.value, value))

end Subscription

end GraphQL
