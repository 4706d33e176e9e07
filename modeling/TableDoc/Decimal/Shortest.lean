import TableDoc.Decimal.Binary

/-!
# The shortest decimal that reads back

A finite double stands for every real number that rounds to it. Among the multiples of powers of ten
in that interval, `shortest` takes one of the coarsest power, so with the fewest digits, and of
these the nearest to the value. The interval's ends belong to it if the significand is even, since
ties round to even. A multiple of `10 ^ k` lies in the interval only if one of the value's two
neighbours among those multiples does, so only these are tried.
-/

namespace TableDoc.Decimal

/-- Which of two decimals equally near to the value is taken. -/
inductive Tie where
  | up
  | even
  deriving DecidableEq, Repr

/-- The value `coefficient · 10 ^ exponent`. -/
structure Scaled where
  coefficient : Nat
  exponent : Int
  deriving DecidableEq, Repr

namespace Binary

/-- The interval that rounds to the value, over one denominator, seen from the grid of multiples of
`10 ^ power`: `value`, `low` and `high` are in units of `1 / unit` of one grid step. -/
structure Grid where
  low : Nat
  value : Nat
  high : Nat
  unit : Nat
  closed : Bool

/-- The interval of the value on the grid of multiples of `10 ^ power`. Quarters of the last binary
place suffice: the interval reaches half a place up, and half a place or, above a power of two, a
quarter of one down. -/
def grid (b : Binary) (power : Int) : Grid :=
  let quarter := Nat.pow 2 b.exponent.toNat * Nat.pow 10 (-power).toNat
  let down := if b.significand = normal ∧ b.exponent ≠ leastExponent then 1 else 2
  { low := (4 * b.significand - down) * quarter
    value := 4 * b.significand * quarter
    high := (4 * b.significand + 2) * quarter
    unit := 4 * Nat.pow 2 (-b.exponent).toNat * Nat.pow 10 power.toNat
    closed := b.significand % 2 = 0 }

end Binary

namespace Binary.Grid

/-- The grid point lies in the interval. -/
def holds (g : Grid) (point : Nat) : Bool :=
  let p := point * g.unit
  0 < point && if g.closed then g.low ≤ p && p ≤ g.high else g.low < p && p < g.high

/-- The grid point in the interval that is nearest to the value. -/
def nearest? (tie : Tie) (g : Grid) : Option Nat :=
  let below := g.value / g.unit
  let above := below + 1
  match g.holds below, g.holds above with
  | false, false => none
  | true, false => some below
  | false, true => some above
  | true, true =>
    let toBelow := g.value - below * g.unit
    let toAbove := above * g.unit - g.value
    if toBelow < toAbove then some below
    else if toAbove < toBelow then some above
    else match tie with
      | .up => some above
      | .even => if below % 2 = 0 then some below else some above

end Binary.Grid

/-- Searches the grids from `10 ^ power` down to finer ones. -/
def shortestFrom (tie : Tie) (b : Binary) (power : Int) : Nat → Scaled
  | 0 => ⟨(b.grid power).value / (b.grid power).unit, power⟩
  | finer + 1 =>
    match (b.grid power).nearest? tie with
    | some c => ⟨c, power⟩
    | none => shortestFrom tie b (power - 1) finer

/-- The shortest decimal that rounds to the value `b`, which is not zero. The first grid tried is
coarser than the value; seventeen digits always suffice. -/
def shortest (tie : Tie) (b : Binary) : Scaled :=
  let bound := ((b.significand.log2 + 1 + b.exponent) * 30103).fdiv 100000 + 1
  shortestFrom tie b bound 22

end TableDoc.Decimal
