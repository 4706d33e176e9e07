import TableDoc.Decimal.Shortest

/-!
# Numbers as text

A `Layout` says how the shortest digits of a number are written: for which exponents positionally,
whether a whole number keeps `.0`, and how an exponent is written. `Layout.write` writes a finite
number so.
-/

namespace TableDoc.Decimal

/-- How a finite number is written. -/
structure Layout where
  /-- Least and greatest exponent of the first digit that are written positionally; none: all. -/
  positional : Option (Int × Int)
  /-- Whole numbers end in `.0`. -/
  point : Bool
  /-- A positive exponent has a plus sign. -/
  plus : Bool
  /-- Which of two equally near decimals is written. -/
  tie : Tie

/-- The decimal digits of a natural number. -/
def digits (n : Nat) : List Char := Nat.toDigits 10 n

namespace Scaled

/-- Written without an exponent. -/
def positional (point : Bool) (d : Scaled) : List Char :=
  let ds := digits d.coefficient
  if 0 ≤ d.exponent then
    ds ++ List.replicate d.exponent.toNat '0' ++ if point then ['.', '0'] else []
  else
    let places := (-d.exponent).toNat
    if ds.length ≤ places then
      '0' :: '.' :: List.replicate (places - ds.length) '0' ++ ds
    else
      ds.take (ds.length - places) ++ '.' :: ds.drop (ds.length - places)

/-- The exponent of the first digit. -/
def magnitude (d : Scaled) : Int := d.exponent + ((digits d.coefficient).length - 1 : Nat)

/-- Written with an exponent. -/
def scientific (plus : Bool) (d : Scaled) : List Char :=
  let sign := if d.magnitude < 0 then ['-'] else if plus then ['+'] else []
  let exponent := 'e' :: sign ++ digits d.magnitude.natAbs
  match digits d.coefficient with
  | [] => exponent
  | [a] => a :: exponent
  | a :: ds => a :: '.' :: ds ++ exponent

end Scaled

/-- Writes a finite number. -/
def Layout.write (layout : Layout) (x : Float) : List Char :=
  let sign := if signBit x then ['-'] else []
  let b := Binary.ofBits x.toBits
  if b.significand = 0 then sign ++ '0' :: if layout.point then ['.', '0'] else []
  else
    let d := shortest layout.tie b
    let small := match layout.positional with
      | none => true
      | some (least, greatest) => least ≤ d.magnitude && d.magnitude ≤ greatest
    sign ++ if small then d.positional layout.point else d.scientific layout.plus

end TableDoc.Decimal
