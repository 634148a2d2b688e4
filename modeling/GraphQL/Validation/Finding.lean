import GraphQL.Diagnostic
import GraphQL.Document.Basic
import GraphQL.Schema.Definition

/-!
What the walk over a document finds: problems, integer literals that stand for
floats, and spreads that are left to the fragment table.
-/

namespace GraphQL

/-- Something that is wrong with an operation. -/
inductive Problem where
  | missingRoot (kind : OperationKind)
  | unknownField (field parent : String)
  | missingSelection (field : String) (type : TypeRef)
  | forbiddenSelection (field : String) (type : TypeRef)
  | unknownArgument (argument parent field : String)
  | missingArgument (field argument : String) (type : TypeRef)
  | unexpectedNull (type : TypeRef)
  | wrongLiteral (type literal : String)
  | nonEnumLiteral (type literal : String)
  | unknownEnumValue (type value : String)
  | unknownType (name : String)
  /-- A fragment, with its name if it has one, that no object of the parent fits. -/
  | impossibleSpread (fragment : Option String) (parent type : String)
deriving DecidableEq

/-- A name in double quotes. -/
def quoted (name : String) : String := "\"" ++ name ++ "\""

/-- The text for the client. -/
def Problem.message : Problem → String
  | .missingRoot kind => s!"Schema is not configured for {kind.keyword}s."
  | .unknownField field parent => s!"Cannot query field {quoted field} on type {quoted parent}."
  | .missingSelection field type =>
    s!"Field {quoted field} of type {quoted type.display} must have a selection of subfields. " ++
      "Did you mean \"" ++ field ++ " \x7b ... \x7d\"?"
  | .forbiddenSelection field type =>
    s!"Field {quoted field} must not have a selection since type {quoted type.display} has no subfields."
  | .unknownArgument argument parent field =>
    "Unknown argument " ++ quoted argument ++ " on field \"" ++ parent ++ "." ++ field ++ "\"."
  | .missingArgument field argument type =>
    s!"Field {quoted field} argument {quoted argument} of type {quoted type.display} " ++
      "is required, but it was not provided."
  | .unexpectedNull type => s!"Expected value of type {quoted type.display}, found null."
  | .wrongLiteral type literal => s!"{type} cannot represent non {type} value: {literal}."
  | .nonEnumLiteral type literal =>
    s!"Enum {quoted type} cannot represent non-enum value: {quoted literal}."
  | .unknownEnumValue type value => s!"Value {quoted value} does not exist in {quoted type} enum."
  | .unknownType name => s!"Unknown type {quoted name}."
  | .impossibleSpread fragment parent type =>
    let subject := match fragment with
      | some name => "Fragment " ++ quoted name
      | none => "Fragment"
    s!"{subject} cannot be spread here as objects of type {quoted parent} can never be of type {quoted type}."

/-- Something that the walk over a document finds. -/
inductive Finding where
  | problem (problem : Problem) (pos : Position)
  /-- An integer literal where a float is expected. -/
  | coercion (n : Int64) (pos : Position)
  /-- A spread of a name that no fragment defines. -/
  | undefinedSpread (spread : FragmentSpread)
  /-- A spread of a fragment that is being expanded already. -/
  | repeatedSpread (spread : FragmentSpread)
deriving DecidableEq

namespace Finding

/-- The diagnostic of a problem; the other findings are not reported. -/
def diagnostic? : Finding → Option Diagnostic
  | .problem cause p => some (.located cause.message p)
  | _ => none

/-- The finding is an integer literal to be widened. -/
def isCoercion : Finding → Bool
  | .coercion _ _ => true
  | _ => false

end Finding

end GraphQL
