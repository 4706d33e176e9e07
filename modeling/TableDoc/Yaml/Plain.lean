import TableDoc.Decimal.Numeral
import TableDoc.Yaml.Cursor
import TableDoc.Yaml.Value

/-!
# What plain scalars mean

A plain scalar is null, a boolean, an integer, a float or else a text, whichever fits first. Digits
after a leading zero make a text, and integers beyond 64 bits that still fit into 128 are refused.
-/

namespace TableDoc.Yaml

/-- The words for null. -/
def isNull (cs : List Char) : Bool :=
  ["null", "Null", "NULL", "~"].contains (String.ofList cs)

/-- The words for truth values. -/
def boolean? (cs : List Char) : Option Bool :=
  let word := String.ofList cs
  if ["true", "True", "TRUE"].contains word then some true
  else if ["false", "False", "FALSE"].contains word then some false
  else none

/-- The value of a digit in bases up to 16. -/
def digit? (base : Nat) (c : Char) : Option Nat :=
  if isHex c ∧ hexValue c < base then some (hexValue c) else none

/-- The number that digits spell in a base. -/
def natural? (base : Nat) (cs : List Char) : Option Nat :=
  if cs = [] then none
  else cs.foldlM (fun n c => (digit? base c).map (base * n + ·)) 0

/-- The base that is written in front of digits, and the digits. -/
def based? : List Char → Option (Nat × List Char)
  | '0' :: 'x' :: cs => some (16, cs)
  | '0' :: 'o' :: cs => some (8, cs)
  | '0' :: 'b' :: cs => some (2, cs)
  | _ => none

/-- A text without the plus sign it may start with. -/
def withoutPlus : List Char → List Char
  | '+' :: cs => cs
  | cs => cs

/-- A zero followed by digits, with or without a sign. -/
def isPaddedNumber (cs : List Char) : Bool :=
  let ds := match cs with
    | '-' :: ds => ds
    | '+' :: ds => ds
    | ds => ds
  match ds with
  | '0' :: d :: ds => (d :: ds).all Char.isDigit
  | _ => false

/-- The integer, not negative, that a text spells, in base ten unless it says otherwise; it has to
be below `limit`. -/
def unsigned? (limit : Nat) (cs : List Char) : Option Nat :=
  let digits := withoutPlus cs
  let bounded := fun n : Option Nat => n.filter (· < limit)
  let ofBase := (based? digits).bind fun (base, ds) => bounded (natural? base ds)
  ofBase <|> if isPaddedNumber cs then none else bounded (natural? 10 digits)

/-- The size of the negative integer that a text spells; it has to be at most `limit`. -/
def negative? (limit : Nat) : List Char → Option Nat
  | '-' :: cs =>
    let bounded := fun n : Option Nat => n.filter (· ≤ limit)
    let ofBase := (based? cs).bind fun (base, ds) => bounded (natural? base ds)
    ofBase <|> if isPaddedNumber cs then none else bounded (natural? 10 cs)
  | _ => none

/-- The integer that a text spells: none if it spells none, and `some none` if it is too large. -/
def integer? (cs : List Char) : Option (Option Int) :=
  match unsigned? (Nat.pow 2 64) cs, negative? (Nat.pow 2 63) cs with
  | some n, _ => some (some n)
  | none, some n => some (some (-n))
  | none, none =>
    if (unsigned? (Nat.pow 2 128) cs).isSome || (negative? (Nat.pow 2 127) cs).isSome then some none
    else none

/-- The float that a text spells. Infinities and NaN start with a point. -/
def float? (cs : List Char) : Option Float :=
  let word := String.ofList cs
  let unplussed := withoutPlus cs
  if unplussed.length < cs.length ∧ unplussed.head?.any (fun c => c = '+' || c = '-') then none
  else if [".inf", ".Inf", ".INF"].contains (String.ofList unplussed) then some (1.0 / 0.0)
  else if ["-.inf", "-.Inf", "-.INF"].contains word then some (-1.0 / 0.0)
  else if [".nan", ".NaN", ".NAN"].contains word then some (0.0 / 0.0)
  else (Decimal.read? unplussed).filter Float.isFinite

/-- What a plain scalar means; none if it is refused. -/
def plainValue? (cs : List Char) : Option Value :=
  if cs = [] ∨ isNull cs then some .null
  else match boolean? cs, integer? cs with
    | some b, _ => some (.boolean b)
    | none, some n => n.map fun n => .number (.integer n)
    | none, none =>
      match if isPaddedNumber cs then none else float? cs with
      | some x => some (.number (.float x))
      | none => some (.text (.ofList cs))

/-- What a scalar means under a tag of the standard, if the tag asks for a kind of value; `some
none` if the scalar is not of it. -/
def standardValue? (tag : List UInt8) (cs : List Char) : Option (Option Value) :=
  match String.fromUTF8? tag.toByteArray with
  | some "tag:yaml.org,2002:bool" => some ((boolean? cs).map .boolean)
  | some "tag:yaml.org,2002:int" =>
    some ((integer? cs).join.map fun n => .number (.integer n))
  | some "tag:yaml.org,2002:float" => some ((float? cs).map fun x => .number (.float x))
  | some "tag:yaml.org,2002:null" => some (if isNull cs then some .null else none)
  | _ => none

end TableDoc.Yaml
