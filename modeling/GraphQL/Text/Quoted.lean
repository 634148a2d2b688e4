import GraphQL.Text.Printable

/-!
Quoted text for people: a string in double quotes on one line, where every
character that is not printable is written as an escape.
-/

namespace GraphQL.Text

/-- An escape by code point, in hexadecimal. -/
def codePointEscape (c : Char) : List Char :=
  ['\\', 'u', '\x7b'] ++ Nat.toDigits 16 c.toNat ++ ['\x7d']

/-- A character in a quoted text. -/
def quotedChar (c : Char) : List Char :=
  match c with
  | '"' => ['\\', '"']
  | '\\' => ['\\', '\\']
  | '\x00' => ['\\', '0']
  | '\t' => ['\\', 't']
  | '\n' => ['\\', 'n']
  | '\r' => ['\\', 'r']
  | c => if isPrintable c then [c] else codePointEscape c

/-- A string in double quotes. -/
def quoted (s : String) : String :=
  String.ofList ('"' :: s.toList.flatMap quotedChar ++ ['"'])

/-- A list of strings in brackets. -/
def quotedList (strings : List String) : String :=
  "[" ++ ", ".intercalate (strings.map quoted) ++ "]"

end GraphQL.Text
