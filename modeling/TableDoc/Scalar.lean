import TableDoc.Json

/-!
# Scalars

The values that authors of documents see: cells, computed columns and aggregates. A date is a text
in the form `YYYY-MM-DD`. `Scalar.toText` is the form in which a value is put into a document and in
which a key or group is recognised.
-/

namespace TableDoc

/-- A value in a document. -/
inductive Scalar where
  | null
  | boolean (b : Bool)
  | number (x : Float)
  | text (s : String)
  deriving DecidableEq, Inhabited

namespace Scalar

/-- The kinds of values. -/
inductive Kind where
  | null
  | boolean
  | number
  | text
  deriving DecidableEq, Repr

/-- The word for a kind in messages. -/
def Kind.name : Kind → String
  | null => "null"
  | boolean => "boolean"
  | number => "number"
  | text => "string"

/-- The kind of a value. -/
def kind : Scalar → Kind
  | null => .null
  | boolean _ => .boolean
  | number _ => .number
  | text _ => .text

/-- In documents numbers have no exponent, and whole numbers no point. -/
def numberLayout : Decimal.Layout := ⟨none, false, false, .up⟩

/-- A number in a document; the sign of a zero is not shown. -/
def numberText (x : Float) : String :=
  if x.isNaN then "NaN"
  else if x.isInf then if x > 0.0 then "Infinity" else "-Infinity"
  else if x == 0.0 then "0"
  else .ofList (numberLayout.write x)

/-- The value in a document. -/
def toText : Scalar → String
  | null => "null"
  | boolean b => if b then "true" else "false"
  | number x => numberText x
  | text s => s

/-- The value in JSON. -/
def toJson : Scalar → Json
  | null => .null
  | boolean b => .boolean b
  | number x => .number x
  | text s => .text s

/-- The double nearest to an integer. -/
def ofInt (n : Int) : Scalar :=
  number (.ofScientific n.natAbs false 0 * if n < 0 then -1.0 else 1.0)

@[simp] theorem kind_eq_null {s : Scalar} : s.kind = .null ↔ s = null := by
  cases s <;> simp [kind]

end Scalar

end TableDoc
