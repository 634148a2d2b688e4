import GraphQL.Json.Basic
import GraphQL.Number.Scale

/-!
Numbers in JSON text. An integer literal that fits 64 bits stays an integer;
any other literal is a double, and one beyond the range of doubles is unread.
-/

namespace GraphQL.Json

/-- A number as written, digit by digit. -/
structure Numeral where
  negative : Bool
  whole : List Nat
  fraction : List Nat
  /-- The exponent, if one is written. -/
  exponent : Option Int

/-- The digit that a character stands for. -/
def digit? (c : Char) : Option Nat :=
  if '0' ≤ c ∧ c ≤ '9' then some (c.toNat - '0'.toNat) else none

/-- The digits at the front of a text, and the rest. -/
def takeDigits : List Char → List Nat × List Char
  | [] => ([], [])
  | c :: rest =>
    match digit? c with
    | some d =>
      let (digits, rest) := takeDigits rest
      (d :: digits, rest)
    | none => ([], c :: rest)

/-- The natural number with the given digits. -/
def ofDigits (digits : List Nat) : Nat :=
  digits.foldl (fun n d => 10 * n + d) 0

/-- A point and at least one digit, or nothing. -/
def fraction? : List Char → Option (List Nat × List Char)
  | '.' :: rest =>
    match takeDigits rest with
    | ([], _) => none
    | taken => some taken
  | rest => some ([], rest)

/-- The digits of an exponent behind its sign. -/
def exponentDigits? (negative : Bool) (rest : List Char) : Option (Option Int × List Char) :=
  match takeDigits rest with
  | ([], _) => none
  | (digits, rest) => some (some (if negative then -(ofDigits digits : Int) else ofDigits digits), rest)

/-- An exponent, or nothing. -/
def exponent? : List Char → Option (Option Int × List Char)
  | c :: rest =>
    if c = 'e' ∨ c = 'E' then
      match rest with
      | '+' :: rest => exponentDigits? false rest
      | '-' :: rest => exponentDigits? true rest
      | rest => exponentDigits? false rest
    else some (none, c :: rest)
  | [] => some (none, [])

/-- The number at the front of a text; zero is the only one that begins with `0`. -/
def numeral? (negative : Bool) (text : List Char) : Option (Numeral × List Char) :=
  match takeDigits text with
  | ([], _) => none
  | (0 :: _ :: _, _) => none
  | (whole, rest) => do
    let (fraction, rest) ← fraction? rest
    let (exponent, rest) ← exponent? rest
    return (⟨negative, whole, fraction, exponent⟩, rest)

/-- The double that a number stands for. -/
def Numeral.float? (n : Numeral) : Option Float :=
  let (significand, dropped) := Number.gather 0 n.whole
  let (significand, unused) := Number.gather significand n.fraction
  let places : Int := n.fraction.length - unused.length
  let size := Number.scale? significand (dropped.length - places + n.exponent.getD 0)
  size.map fun x => if n.negative then -x else x

/-- The value that a number stands for. Negative zero is a double. -/
def Numeral.value (n : Numeral) : Json :=
  let size := ofDigits n.whole
  if n.fraction.isEmpty && n.exponent.isNone && !n.negative && size ≤ Number.maxSignificand then .int size
  else if n.fraction.isEmpty && n.exponent.isNone && n.negative && 0 < size && size ≤ UInt64.size / 2 then .int (-size)
  else match n.float? with
    | some x => .float x
    | none => .unread

end GraphQL.Json
