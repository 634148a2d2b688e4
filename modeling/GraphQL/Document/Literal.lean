import GraphQL.Position
import GraphQL.Number.Layout

/-!
Literals: the values written in a document. A literal keeps the position it
was written at; a list literal and an object literal hold further literals.
-/

namespace GraphQL

/-- A name and the position it was written at. -/
structure Name where
  value : String
  pos : Position
deriving DecidableEq

/-- A value written in a document. -/
inductive Literal where
  | var (name : Name)
  | int (n : Int64) (pos : Position)
  | float (x : Float) (pos : Position)
  | string (s : String) (pos : Position)
  | bool (b : Bool) (pos : Position)
  | null (pos : Position)
  /-- A bare identifier, such as the name of an enum value. -/
  | enum (name : Name)
  | list (items : List Literal) (pos : Position)
  | object (fields : List (Name × Literal)) (pos : Position)

namespace Literal

/-- The position a literal was written at. -/
def pos : Literal → Position
  | .var name | .enum name => name.pos
  | .int _ p | .float _ p | .string _ p | .bool _ p | .null p | .list _ p | .object _ p => p

/-- The name of the type that a literal has on its own. -/
def kindName : Literal → String
  | .var _ => "Variable"
  | .int _ _ => "Int"
  | .float _ _ => "Float"
  | .string _ _ => "String"
  | .bool _ _ => "Boolean"
  | .null _ => "Null"
  | .enum _ => "Enum"
  | .list _ _ => "List"
  | .object _ _ => "Object"

/-- The literal is a bare identifier. -/
def isIdentifier : Literal → Bool
  | .enum _ => true
  | _ => false

/-- A character inside a quoted string. -/
def escape (c : Char) : List Char :=
  match c with
  | '"' => ['\\', '"']
  | '\\' => ['\\', '\\']
  | '\n' => ['\\', 'n']
  | '\r' => ['\\', 'r']
  | '\t' => ['\\', 't']
  | c => [c]

/-- A string in quotes. -/
def quote (s : String) : String :=
  String.ofList ('"' :: s.toList.flatMap escape ++ ['"'])

mutual

/-- The literal as it is written in a document. -/
def display : Literal → String
  | .var name => "$" ++ name.value
  | .int n _ => toString n.toInt
  | .float x _ => Number.literalText x
  | .string s _ => quote s
  | .bool b _ => if b then "true" else "false"
  | .null _ => "null"
  | .enum name => name.value
  | .list items _ => "[" ++ displayItems items ++ "]"
  | .object fields _ => "\x7b" ++ displayFields fields ++ "\x7d"

/-- The items with commas between them. -/
def displayItems : List Literal → String
  | [] => ""
  | [item] => item.display
  | item :: items => item.display ++ ", " ++ displayItems items

/-- The fields with commas between them. -/
def displayFields : List (Name × Literal) → String
  | [] => ""
  | [(name, value)] => name.value ++ ": " ++ value.display
  | (name, value) :: fields => name.value ++ ": " ++ value.display ++ ", " ++ displayFields fields

end

/-- The literal's text, in which a string has no quotes. -/
def plainText : Literal → String
  | .string s _ => s
  | literal => literal.display

/-- The integer literal as a float, if the literal is one. -/
def toFloat? : Literal → Option Literal
  | .int n p => some (.float (Float.ofInt n.toInt) p)
  | _ => none

/-- An integer literal as a float; any other literal as it is. -/
def widened (literal : Literal) : Literal :=
  literal.toFloat?.getD literal

@[simp] theorem widened_widened (literal : Literal) : literal.widened.widened = literal.widened := by
  cases literal <;> rfl

end Literal

end GraphQL
