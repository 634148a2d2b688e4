/-!
Doubles as exact numbers. The bits of a finite double without its sign are a
natural number times a power of two; everything that is printed is decided on
that pair and not by rounding operations.
-/

namespace GraphQL.Number

/-- A finite double without its sign, `mantissa * 2 ^ exponent`. -/
structure Binary where
  mantissa : Nat
  exponent : Int
  /-- The gap to the double below is half the gap to the double above. -/
  narrow : Bool

/-- The exact value of the bits of a finite double, sign left out. -/
def Binary.ofBits (bits : UInt64) : Binary :=
  let biased := ((bits >>> 52) &&& 0x7FF).toNat
  let fraction := (bits &&& 0xFFFFFFFFFFFFF).toNat
  if biased = 0 then ⟨fraction, -1074, false⟩
  else ⟨Nat.pow 2 52 + fraction, (biased : Int) - 1075, fraction == 0 && 1 < biased⟩

/-- The exact value of a finite double, sign left out. -/
def Binary.ofFloat (x : Float) : Binary :=
  ofBits x.toBits

/-- The sign bit, which negative zero has as well. -/
def isNegative (x : Float) : Bool :=
  x.toBits >>> 63 == 1

/-- The natural number that a whole value stands for. -/
def Binary.whole? (b : Binary) : Option Nat :=
  let unit := Nat.pow 2 (-b.exponent).toNat
  if b.mantissa % unit = 0 then some (b.mantissa * Nat.pow 2 b.exponent.toNat / unit) else none

end GraphQL.Number
