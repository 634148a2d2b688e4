/-!
JSON values. An object keeps its members as written, repeated names included;
`Json.sorted` gives the form of a dynamic object, whose members are ordered by
name and where the last of several equal names counts.
-/

namespace GraphQL

/-- A JSON value. -/
inductive Json where
  | null
  | bool (b : Bool)
  | int (n : Int)
  | float (x : Float)
  | string (s : String)
  | array (items : List Json)
  | object (members : List (String × Json))
  /-- A well-formed text that stands for no value: a number beyond the range of
  doubles, half a surrogate pair, or a bracket nested too deep. It does no harm
  where nobody looks and is refused wherever a value is asked for. -/
  | unread

namespace Json

/-- The text of a string value. -/
def string? : Json → Option String
  | .string s => some s
  | _ => none

/-- The truth of a boolean value. -/
def bool? : Json → Option Bool
  | .bool b => some b
  | _ => none

/-- The items of an array. -/
def array? : Json → Option (List Json)
  | .array items => some items
  | _ => none

/-- The members of an object. -/
def object? : Json → Option (List (String × Json))
  | .object members => some members
  | _ => none

/-- A double as a value; JSON has none for NaN and the infinities. -/
def ofFloat (x : Float) : Json :=
  if x.isFinite then .float x else .null

mutual

/-- No part of the value is unread. -/
def complete : Json → Bool
  | .unread => false
  | .array items => completeItems items
  | .object members => completeMembers members
  | _ => true

/-- No part of the items is unread. -/
def completeItems : List Json → Bool
  | [] => true
  | item :: items => item.complete && completeItems items

/-- No part of the members is unread. -/
def completeMembers : List (String × Json) → Bool
  | [] => true
  | (_, value) :: members => value.complete && completeMembers members

end

mutual

/-- The value read with a limit on the nesting of brackets: what lies deeper is unread. -/
def within : Nat → Json → Json
  | 0, .array _ => .unread
  | 0, .object _ => .unread
  | levels + 1, .array items => .array (itemsWithin levels items)
  | levels + 1, .object members => .object (membersWithin levels members)
  | _, value => value

/-- Each item read with the limit. -/
def itemsWithin (levels : Nat) : List Json → List Json
  | [] => []
  | item :: items => item.within levels :: itemsWithin levels items

/-- Each member read with the limit. -/
def membersWithin (levels : Nat) : List (String × Json) → List (String × Json)
  | [] => []
  | (name, value) :: members => (name, value.within levels) :: membersWithin levels members

end

end Json

end GraphQL
