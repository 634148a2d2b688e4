import GraphQL.Diagnostic
import GraphQL.Document.Basic

/-!
Which operation of a document a request runs: the one it names, or the only
one there is.
-/

namespace GraphQL

/-- Why no operation can be chosen. -/
inductive OperationError where
  | unknown (name : String)
  | missing
  | ambiguous
deriving DecidableEq

namespace OperationError

/-- The text for the client. -/
def message : OperationError → String
  | unknown name => "Unknown operation named \"" ++ name ++ "\"."
  | missing => "No operation found"
  | ambiguous => "Must provide operation name if query contains multiple operations"

/-- The diagnostic for the client, which points nowhere. -/
def diagnostic (error : OperationError) : Diagnostic := .ofMessage error.message

end OperationError

/-- The operation has the given name. -/
def Operation.isNamed (operation : Operation) (name : String) : Bool :=
  match operation.name with
  | some own => own.value == name
  | none => false

/-- The first operation with the wanted name; without a name, the only operation. -/
def Document.select (document : Document) : Option String → Except OperationError Operation
  | some name =>
    match document.operations.find? fun operation => operation.isNamed name with
    | some operation => .ok operation
    | none => .error (.unknown name)
  | none =>
    match document.operations with
    | [] => .error .missing
    | [operation] => .ok operation
    | _ => .error .ambiguous

end GraphQL
