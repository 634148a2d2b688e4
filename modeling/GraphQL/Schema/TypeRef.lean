import GraphQL.Text.Blank

/-!
References to types, written `[Dog!]!`: a name, in any number of list and
non-null wrappers. In the written form no non-null wraps a non-null, and blanks
may stand around every part.
-/

namespace GraphQL

/-- A reference to a type. -/
inductive TypeRef where
  | named (name : String)
  | list (item : TypeRef)
  | nonNull (inner : TypeRef)
deriving DecidableEq

namespace TypeRef

/-- The written form of a reference. -/
def display : TypeRef → String
  | .named name => name
  | .list item => "[" ++ item.display ++ "]"
  | .nonNull inner => inner.display ++ "!"

/-- The name below all wrappers. -/
def base : TypeRef → String
  | .named name => name
  | .list item => item.base
  | .nonNull inner => inner.base

/-- The outermost wrapper is non-null. -/
def isNonNull : TypeRef → Bool
  | .nonNull _ => true
  | _ => false

/-- The reference without an outermost non-null wrapper. -/
def nullable : TypeRef → TypeRef
  | .nonNull inner => inner
  | type => type

/-- A character that may begin a name. -/
def isNameStart (c : Char) : Bool :=
  c == '_' || ('a' ≤ c && c ≤ 'z') || ('A' ≤ c && c ≤ 'Z')

/-- A character of a name behind its first. -/
def isNamePart (c : Char) : Bool :=
  isNameStart c || ('0' ≤ c && c ≤ '9')

/-- The text is a name. -/
def isName : List Char → Bool
  | [] => false
  | c :: rest => isNameStart c && rest.all isNamePart

/-- The last character taken off, if it is the given one. -/
def dropLast? (c : Char) (text : List Char) : Option (List Char) :=
  if text.getLast? = some c then some text.dropLast else none

theorem length_lt_of_dropLast? {c : Char} {text rest : List Char} (h : dropLast? c text = some rest) :
    rest.length < text.length := by
  simp only [dropLast?] at h
  split at h
  · rename_i hl
    cases h
    have : text ≠ [] := by
      rintro rfl
      simp at hl
    have := List.length_pos_iff.2 this
    rw [List.length_dropLast]
    omega
  · cases h

/-- The reference that a text is. -/
def ofChars? (text : List Char) : Option TypeRef :=
  match hb : dropLast? '!' (Text.trim text) with
  | some inner =>
    have : inner.length < text.length :=
      Nat.lt_of_lt_of_le (length_lt_of_dropLast? hb) (Text.length_trim_le text)
    match ofChars? inner with
    | some (.nonNull _) => none
    | some inner => some (.nonNull inner)
    | none => none
  | none =>
    match ht : Text.trim text with
    | '[' :: rest =>
      match hl : dropLast? ']' rest with
      | some item =>
        have : item.length < text.length := by
          have h := Text.length_trim_le text
          have := length_lt_of_dropLast? hl
          rw [ht, List.length_cons] at h
          omega
        (ofChars? item).map .list
      | none => none
    | name => if isName name then some (.named (String.ofList name)) else none
termination_by text.length

/-- The reference that a text is. -/
def ofText? (text : String) : Option TypeRef :=
  ofChars? text.toList

/-- What is said of a text that is no reference. -/
def rejection (text : String) : String := "invalid type reference \"" ++ text ++ "\""

end TypeRef

end GraphQL
