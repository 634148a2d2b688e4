import GraphQL.Json.Basic

/-!
Records: the members of a dynamic object, ordered by name with no name twice.
Names are compared by code point, which is also the order of their UTF-8 bytes.
-/

namespace GraphQL

/-- Members of a dynamic object. -/
abbrev Record := List (String × Json)

namespace Record

/-- Gives a name a value, in the place where the order wants it. -/
def put (name : String) (value : Json) : Record → Record
  | [] => [(name, value)]
  | (other, old) :: members =>
    if name = other then (name, value) :: members
    else if name < other then (name, value) :: (other, old) :: members
    else (other, old) :: put name value members

/-- The value of a name. -/
def get? (name : String) : Record → Option Json
  | [] => none
  | (other, value) :: members => if name = other then some value else get? name members

/-- The record of some members, of which the last with a name counts. -/
def ofList (members : List (String × Json)) : Record :=
  members.foldl (fun record member => record.put member.1 member.2) []

theorem get?_put (other name : String) (value : Json) (record : Record) :
    (record.put name value).get? other = if other = name then some value else record.get? other := by
  induction record with
  | nil => simp [put, get?]
  | cons member members ih => simp only [put]; grind [get?]

end Record

namespace Json

mutual

/-- The dynamic form of a value: every object in it is a record. -/
def sorted : Json → Json
  | .array items => .array (sortedItems items)
  | .object members => .object (Record.ofList (sortedMembers members))
  | value => value

/-- The dynamic form of each item. -/
def sortedItems : List Json → List Json
  | [] => []
  | item :: items => item.sorted :: sortedItems items

/-- The dynamic form of each member's value. -/
def sortedMembers : List (String × Json) → List (String × Json)
  | [] => []
  | (name, value) :: members => (name, value.sorted) :: sortedMembers members

end

end Json

end GraphQL
