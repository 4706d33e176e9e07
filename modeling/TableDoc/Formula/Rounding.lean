import TableDoc.Decimal.Binary

/-!
# Rounding to decimal places

`roundHalfEven x digits` rounds the product of `x` and a power of ten to a whole number, a half to
the even neighbour, and divides it again. What is within `tieWidth` of a half counts as one.
-/

namespace TableDoc.Formula

open Decimal

/-- Distances from one half below this are taken for zero. -/
def tieWidth : Float := 1e-12

/-- Multiplies `result` by `base ^ n`, squaring the base from one binary digit of `n` to the next.
-/
def timesPower (result base : Float) (n : Nat) : Float :=
  let result := if n % 2 = 1 then result * base else result
  if n / 2 = 0 then result else timesPower result (base * base) (n / 2)
termination_by n
decreasing_by omega

/-- The power of ten, computed in floating point, so zero or infinite far out. -/
def powerOfTen (n : Int) : Float :=
  let size := timesPower 1.0 10.0 n.natAbs
  if n < 0 then 1.0 / size else size

/-- Rounds to `digits` decimal places, to the left of the point if negative. -/
def roundHalfEven (x : Float) (digits : Int) : Float :=
  if x.isFinite then
    let factor := powerOfTen digits
    let scaled := x * factor
    let whole := truncate scaled
    let rounded :=
      if (((scaled - whole).abs - 0.5).abs) < tieWidth then
        if wholePart whole % 2 = 0 then whole else whole + if signBit scaled then -1.0 else 1.0
      else roundAway scaled
    rounded / factor
  else x

end TableDoc.Formula
