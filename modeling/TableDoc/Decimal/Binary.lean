/-!
# Finite floating-point values, exactly

`Binary` is a natural number times a power of two. `Binary.ofBits` reads the size of a finite double
from its bits; sign, infinities and NaN are the caller's business.
-/

namespace TableDoc.Decimal

/-- The value `significand · 2 ^ exponent`. -/
structure Binary where
  significand : Nat
  exponent : Int
  deriving DecidableEq, Repr

namespace Binary

/-- The significand of the normal numbers starts here. -/
def normal : Nat := Nat.pow 2 52

/-- The exponent of the subnormal numbers. -/
def leastExponent : Int := -1074

/-- The size of the finite double with these bits. -/
def ofBits (bits : UInt64) : Binary :=
  let fraction := bits.toNat % normal
  let field := bits.toNat / normal % 2048
  if field = 0 then ⟨fraction, leastExponent⟩ else ⟨normal + fraction, field - 1075⟩

/-- Numerator of the value as a fraction. -/
def num (b : Binary) : Nat := b.significand * Nat.pow 2 b.exponent.toNat

/-- Denominator of the value as a fraction. -/
def den (b : Binary) : Nat := Nat.pow 2 (-b.exponent).toNat

end Binary

/-- The bit of the sign is set. -/
def signBit (x : Float) : Bool := x.toBits ≥ 0x8000000000000000

/-- Towards zero, to a whole number: the bits below the binary point are cleared. -/
def truncate (x : Float) : Float :=
  let field := x.toBits.toNat / Binary.normal % 2048
  if field < 1023 then if signBit x then -0.0 else 0.0
  else if field ≥ 1075 then x
  else
    let below := Nat.pow 2 (1075 - field)
    .ofBits (.ofNat (x.toBits.toNat / below * below))

/-- Half away from zero, to a whole number. -/
def roundAway (x : Float) : Float :=
  let whole := truncate x
  if (x - whole).abs ≥ 0.5 then whole + if signBit x then -1.0 else 1.0 else whole

/-- The integer part of the size of a finite number. -/
def wholePart (x : Float) : Nat :=
  let b := Binary.ofBits x.toBits
  b.num / b.den

/-- Towards zero, to an integer between two bounds; what is no number counts as zero. -/
def clampToInt (least greatest : Int) (x : Float) : Int :=
  if x.isNaN then 0
  else if x.isInf then if signBit x then least else greatest
  else
    let size : Int := wholePart x
    max least (min greatest (if signBit x then -size else size))

end TableDoc.Decimal
