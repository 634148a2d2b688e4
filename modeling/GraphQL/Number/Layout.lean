import GraphQL.Number.Shortest

/-!
How a double is written. Literals of a document never use an exponent and
write whole values exactly; JSON numbers use an exponent for the very large
and the very small. Both always show a point or an exponent, so that a float
is never mistaken for an integer.
-/

namespace GraphQL.Number

/-- The exponent of the leading digit. -/
def Decimal.lead (d : Decimal) : Int :=
  ((toString d.digits).length : Int) - 1 + d.exponent

/-- Digits with a point and no exponent; whole values end in `.0`. -/
def Decimal.positional (d : Decimal) : String :=
  let digits := (toString d.digits).toList
  match d.exponent with
  | .ofNat zeros => String.ofList (digits ++ List.replicate zeros '0') ++ ".0"
  | .negSucc n =>
    let places := n + 1
    let padded := List.replicate (places + 1 - digits.length) '0' ++ digits
    let point := padded.length - places
    String.ofList (padded.take point) ++ "." ++ String.ofList (padded.drop point)

/-- One digit, a point and the others if there are any, and a signed exponent. -/
def Decimal.scientific (d : Decimal) : String :=
  let exponent := if d.lead < 0 then s!"e{d.lead}" else s!"e+{d.lead}"
  match (toString d.digits).toList with
  | [] => exponent
  | [digit] => String.ofList [digit] ++ exponent
  | digit :: rest => String.ofList (digit :: '.' :: rest) ++ exponent

/-- Puts the sign of the double in front of the text of its size. -/
def signed (x : Float) (size : String) : String :=
  if isNegative x then "-" ++ size else size

/-- The text of a float literal: the exact value if it is whole, the shortest
digits that read back if not, and a tie between two goes up. -/
def literalText (x : Float) : String :=
  if x.isNaN then "NaN"
  else if x.isInf then signed x "inf"
  else
    let b := Binary.ofFloat x
    signed x <| match b.whole? with
      | some n => s!"{n}.0"
      | none => (b.shortest .up).positional

/-- The text of a JSON number: positional from `10 ^ -5` to below `10 ^ 16`,
and a tie goes to even. JSON has no text for NaN and the infinities. -/
def jsonText (x : Float) : String :=
  if x.isNaN || x.isInf then "null"
  else
    let b := Binary.ofFloat x
    if b.mantissa = 0 then signed x "0.0"
    else
      let d := b.shortest .even
      signed x (if -5 ≤ d.lead ∧ d.lead < 16 then d.positional else d.scientific)

end GraphQL.Number
