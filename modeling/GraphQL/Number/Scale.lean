/-!
Reading a decimal into a double. The digits are gathered into a 64-bit
significand, which is rounded once and then multiplied or divided by one power
of ten; digits that no longer fit are dropped, those before the point raising
the exponent. The result can differ in its last bit from the nearest double.
-/

namespace GraphQL.Number

/-- The largest significand. -/
def maxSignificand : Nat := UInt64.size - 1

/-- Appends digits to a significand while they fit; what did not fit is left over. -/
def gather : Nat → List Nat → Nat × List Nat
  | significand, [] => (significand, [])
  | significand, digit :: digits =>
    if significand * 10 + digit ≤ maxSignificand then gather (significand * 10 + digit) digits
    else (significand, digit :: digits)

/-- The double nearest to `10 ^ n`. -/
def powerOfTen (n : Nat) : Float :=
  Float.ofScientific 1 false n

/-- Scales a significand by a power of ten; `none` above the largest double.
Very small exponents are taken in two divisions. -/
def scale? (significand : Nat) (exponent : Int) : Option Float :=
  let f := (UInt64.ofNat significand).toFloat
  if significand = 0 then some 0.0
  else if 308 < exponent then none
  else if 0 ≤ exponent then
    let product := f * powerOfTen exponent.toNat
    if product.isInf then none else some product
  else if -308 ≤ exponent then some (f / powerOfTen (-exponent).toNat)
  else if -616 ≤ exponent then some (f / powerOfTen 308 / powerOfTen (-exponent - 308).toNat)
  else some 0.0

end GraphQL.Number
