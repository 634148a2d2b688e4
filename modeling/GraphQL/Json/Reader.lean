import GraphQL.Json.Number

/-!
Reading JSON text. The grammar is strict: no comments, no trailing commas, no
control characters in strings, nothing but blanks around the value. What the
grammar admits but no value can stand for is kept as `Json.unread`.
-/

namespace GraphQL.Json

/-- The blanks of JSON: space, line feed, carriage return and tab. -/
def skipBlanks (text : List Char) : List Char :=
  text.dropWhile fun c => c = ' ' || c = '\n' || c = '\r' || c = '\t'

/-- The value of a hexadecimal digit. -/
def hexDigit? (c : Char) : Option Nat :=
  if '0' ≤ c ∧ c ≤ '9' then some (c.toNat - '0'.toNat)
  else if 'a' ≤ c ∧ c ≤ 'f' then some (c.toNat - 'a'.toNat + 10)
  else if 'A' ≤ c ∧ c ≤ 'F' then some (c.toNat - 'A'.toNat + 10)
  else none

/-- The number with four hexadecimal digits. -/
def hex? (a b c d : Char) : Option Nat := do
  return ((← hexDigit? a) * 16 + (← hexDigit? b)) * 256 + (← hexDigit? c) * 16 + (← hexDigit? d)

/-- The character of an escape with a single letter. -/
def escaped? (c : Char) : Option Char :=
  match c with
  | '"' => some '"'
  | '\\' => some '\\'
  | '/' => some '/'
  | 'b' => some '\x08'
  | 'f' => some '\x0c'
  | 'n' => some '\n'
  | 'r' => some '\r'
  | 't' => some '\t'
  | _ => none

/-- A string being read: the characters so far in reverse, the first half of a
surrogate pair that waits for the second, and whether every half found its other half. -/
structure StringState where
  reversed : List Char
  high : Option Nat
  sound : Bool

namespace StringState

/-- A character that is no half of a pair. -/
def push (s : StringState) (c : Char) : StringState :=
  ⟨c :: s.reversed, none, s.sound && s.high.isNone⟩

/-- A 16-bit unit. -/
def pushUnit (s : StringState) (n : Nat) : StringState :=
  if 0xD800 ≤ n ∧ n < 0xDC00 then ⟨s.reversed, some n, s.sound && s.high.isNone⟩
  else if 0xDC00 ≤ n ∧ n < 0xE000 then
    match s.high with
    | some high => ⟨Char.ofNat (0x10000 + (high - 0xD800) * 0x400 + (n - 0xDC00)) :: s.reversed, none, s.sound⟩
    | none => ⟨s.reversed, none, false⟩
  else s.push (Char.ofNat n)

/-- The string, if every half of a pair has its other half. -/
def result (s : StringState) : Option String :=
  if s.sound && s.high.isNone then some (String.ofList s.reversed.reverse) else none

end StringState

/-- The string whose opening quote has been read. The inner option is empty
for a well-formed string that has half a surrogate pair. -/
def stringTail? (s : StringState) : List Char → Option (Option String × List Char)
  | '"' :: rest => some (s.result, rest)
  | '\\' :: 'u' :: a :: b :: c :: d :: rest =>
    match hex? a b c d with
    | some n => stringTail? (s.pushUnit n) rest
    | none => none
  | '\\' :: c :: rest =>
    match escaped? c with
    | some c => stringTail? (s.push c) rest
    | none => none
  | c :: rest => if c.toNat < 0x20 ∨ c = '\\' then none else stringTail? (s.push c) rest
  | [] => none

/-- A string with its opening quote. -/
def quoted? : List Char → Option (Option String × List Char)
  | '"' :: rest => stringTail? ⟨[], none, true⟩ rest
  | _ => none

/-- An object of the members read; with a name that stands for no string it is unread. -/
def ofMembers (members : List (Option String × Json)) : Json :=
  match members.mapM fun (name, value) => name.map (·, value) with
  | some members => .object members
  | none => .unread

mutual

/-- The value at the front of a text. -/
def value? : Nat → List Char → Option (Json × List Char)
  | 0, _ => none
  | fuel + 1, text =>
    match skipBlanks text with
    | 'n' :: 'u' :: 'l' :: 'l' :: rest => some (.null, rest)
    | 't' :: 'r' :: 'u' :: 'e' :: rest => some (.bool true, rest)
    | 'f' :: 'a' :: 'l' :: 's' :: 'e' :: rest => some (.bool false, rest)
    | '"' :: rest =>
      (stringTail? ⟨[], none, true⟩ rest).map fun (s, rest) => (s.elim .unread .string, rest)
    | '[' :: rest =>
      match skipBlanks rest with
      | ']' :: rest => some (.array [], rest)
      | rest => (items? fuel rest).map fun (items, rest) => (.array items, rest)
    | '\x7b' :: rest =>
      match skipBlanks rest with
      | '\x7d' :: rest => some (.object [], rest)
      | rest => (members? fuel rest).map fun (members, rest) => (ofMembers members, rest)
    | '-' :: rest => (numeral? true rest).map fun (n, rest) => (n.value, rest)
    | rest => (numeral? false rest).map fun (n, rest) => (n.value, rest)

/-- The items of an array up to its closing bracket; there is at least one. -/
def items? : Nat → List Char → Option (List Json × List Char)
  | 0, _ => none
  | fuel + 1, text =>
    match value? fuel text with
    | none => none
    | some (item, rest) =>
      match skipBlanks rest with
      | ',' :: rest => (items? fuel rest).map fun (items, rest) => (item :: items, rest)
      | ']' :: rest => some ([item], rest)
      | _ => none

/-- The members of an object up to its closing brace; there is at least one. -/
def members? : Nat → List Char → Option (List (Option String × Json) × List Char)
  | 0, _ => none
  | fuel + 1, text =>
    match quoted? (skipBlanks text) with
    | none => none
    | some (name, rest) =>
      match skipBlanks rest with
      | ':' :: rest =>
        match value? fuel rest with
        | none => none
        | some (value, rest) =>
          match skipBlanks rest with
          | ',' :: rest => (members? fuel rest).map fun (members, rest) => ((name, value) :: members, rest)
          | '\x7d' :: rest => some ([(name, value)], rest)
          | _ => none
      | _ => none

end

/-- The value that a text is, without a limit on nesting. A value and the list
it opens use two steps for each character, which bounds the fuel. -/
def read? (text : String) : Option Json :=
  let chars := text.toList
  match value? (2 * chars.length + 2) chars with
  | some (value, rest) => if (skipBlanks rest).isEmpty then some value else none
  | none => none

/-- The deepest nesting of brackets in a text from outside. -/
def maxLevels : Nat := 127

/-- The value that a text from outside is. -/
def readWithin? (text : String) : Option Json :=
  (read? text).map (within maxLevels)

end GraphQL.Json
