import GraphQL.Number.Binary

/-!
The fewest decimal digits that read back. A double stands for the interval of
reals that round to it; the search runs over ever finer decimal grids, tests
the two neighbours of the value on each in exact arithmetic, and stops at the
first grid with a hit. Of two hits the nearer is taken, and a tie goes by rule.
-/

namespace GraphQL.Number

/-- The number `digits * 10 ^ exponent`. -/
structure Decimal where
  digits : Nat
  exponent : Int
deriving DecidableEq, Repr

/-- Where an exact tie between two candidates goes. -/
inductive Tie where
  | even
  | up
deriving DecidableEq

/-- Compares `a * 10 ^ i` with `b * 2 ^ j`. -/
def compareScaled (a : Nat) (i : Int) (b : Nat) (j : Int) : Ordering :=
  compare (a * Nat.pow 10 i.toNat * Nat.pow 2 (-j).toNat) (b * Nat.pow 2 j.toNat * Nat.pow 10 (-i).toNat)

/-- The decimal lies among the reals that round to the double, whose ends
belong to the interval when the mantissa is even. -/
def Binary.readsBack (b : Binary) (d : Decimal) : Bool :=
  let closed := b.mantissa % 2 == 0
  let low := 4 * b.mantissa - (if b.narrow then 1 else 2)
  let above := compareScaled d.digits d.exponent low (b.exponent - 2)
  let below := compareScaled d.digits d.exponent (4 * b.mantissa + 2) (b.exponent - 2)
  (above == .gt || closed && above == .eq) && (below == .lt || closed && below == .eq)

/-- The largest multiple of `10 ^ e` that does not exceed the value, in units of `10 ^ e`. -/
def Binary.floorAt (b : Binary) (e : Int) : Nat :=
  b.mantissa * Nat.pow 2 b.exponent.toNat * Nat.pow 10 (-e).toNat /
    (Nat.pow 2 (-b.exponent).toNat * Nat.pow 10 e.toNat)

/-- The nearer of `n * 10 ^ e` and `(n + 1) * 10 ^ e`. -/
def Binary.nearer (b : Binary) (tie : Tie) (n : Nat) (e : Int) : Decimal :=
  match compareScaled (2 * n + 1) e b.mantissa (b.exponent + 1) with
  | .lt => ⟨n + 1, e⟩
  | .gt => ⟨n, e⟩
  | .eq => match tie with
    | .up => ⟨n + 1, e⟩
    | .even => if n % 2 = 0 then ⟨n, e⟩ else ⟨n + 1, e⟩

/-- The point of the grid `10 ^ e` chosen for the value, if one reads back. -/
def Binary.onGrid (b : Binary) (tie : Tie) (e : Int) : Option Decimal :=
  let n := b.floorAt e
  if n = 0 then none
  else match b.readsBack ⟨n, e⟩, b.readsBack ⟨n + 1, e⟩ with
    | true, true => some (b.nearer tie n e)
    | true, false => some ⟨n, e⟩
    | false, true => some ⟨n + 1, e⟩
    | false, false => none

/-- The first hit on the grids `10 ^ e`, `10 ^ (e - 1)`, …, or the exact value
when `grids` of them have none. -/
def Binary.search (b : Binary) (tie : Tie) : Nat → Int → Decimal
  | 0, _ => ⟨b.mantissa * Nat.pow 2 b.exponent.toNat * Nat.pow 5 (-b.exponent).toNat, -((-b.exponent).toNat : Int)⟩
  | grids + 1, e => (b.onGrid tie e).getD (b.search tie grids (e - 1))

/-- A power of ten above the value, at most two steps from the least one. -/
def Binary.scale (b : Binary) : Int :=
  ((b.mantissa.log2 : Int) + b.exponent + 1) * 30103 / 100000 + 1

/-- Moves the zeros at the end of the digits into the exponent. -/
def Decimal.strip : Nat → Decimal → Decimal
  | 0, d => d
  | fuel + 1, d =>
    if d.digits ≠ 0 ∧ d.digits % 10 = 0 then strip fuel ⟨d.digits / 10, d.exponent + 1⟩ else d

/-- The shortest decimal that reads back to a positive double. -/
def Binary.shortest (b : Binary) (tie : Tie) : Decimal :=
  let d := b.search tie 21 b.scale
  d.strip d.digits.log2

end GraphQL.Number
