import TableDoc.Formula.Error

/-!
# Functions

Built-in functions work on the values of one row; aggregates fold a column over rows. Names of
functions are read in any case. `AggregateFunction.apply` says how an aggregate folds values: nulls
are passed over, and all but `count` need numbers.
-/

namespace TableDoc.Formula

/-- The functions of single values. -/
inductive Builtin where
  /-- `round(value, digits)` -/
  | round
  /-- `if(condition, then, else)` -/
  | cond
  deriving DecidableEq, Repr

namespace Builtin

/-- The name of a function. -/
def name : Builtin → String
  | round => "round"
  | cond => "if"

/-- The function with this name. -/
def ofName? (s : String) : Option Builtin :=
  match s.toLower with
  | "round" => some round
  | "if" => some cond
  | _ => none

/-- The number of arguments. -/
def arity : Builtin → Nat
  | round => 2
  | cond => 3

/-- The error of a call with a wrong number of arguments. -/
def arityError (f : Builtin) (actual : Nat) : Error := .argumentCount f.name f.arity actual

/-- Fails unless the number of arguments is right. -/
def checkArity (f : Builtin) (actual : Nat) : Except Error Unit :=
  if actual = f.arity then .ok () else .error (f.arityError actual)

end Builtin

/-- The functions of columns. -/
inductive AggregateFunction where
  | sum
  | avg
  | min
  | max
  | count
  deriving DecidableEq, Repr

namespace AggregateFunction

/-- The name of a function. -/
def name : AggregateFunction → String
  | sum => "sum"
  | avg => "avg"
  | min => "min"
  | max => "max"
  | count => "count"

/-- The function with this name. -/
def ofName? (s : String) : Option AggregateFunction :=
  match s.toLower with
  | "sum" => some sum
  | "avg" => some avg
  | "min" => some min
  | "max" => some max
  | "count" => some count
  | _ => none

/-- The number that a value is, for an aggregate that needs one. -/
def number (f : AggregateFunction) : Scalar → Except Error Float
  | .number x => .ok x
  | value => .error (.type (.aggregate f.name value))

/-- The sum, from the left; of nothing it is negative zero. -/
def total (xs : List Float) : Float := xs.foldl (· + ·) (-0.0)

/-- The smaller of two numbers, the first of equal ones; what is no number loses. -/
def smaller (x y : Float) : Float :=
  if x.isNaN then y else if y < x then y else x

/-- The greater of two numbers, the first of equal ones; what is no number loses. -/
def greater (x y : Float) : Float :=
  if x.isNaN then y else if x < y then y else x

/-- Folds a list that is not empty; of the empty list it is null. -/
def reduce (f : Float → Float → Float) : List Float → Scalar
  | [] => .null
  | x :: xs => .number (xs.foldl f x)

/-- Folds numbers. -/
def ofNumbers (xs : List Float) : AggregateFunction → Scalar
  | sum => .number (total xs)
  | avg => if xs = [] then .null else .number (total xs / .ofNat xs.length)
  | min => reduce smaller xs
  | max => reduce greater xs
  | count => .number (.ofNat xs.length)

/-- Folds the values of a column. -/
def apply (f : AggregateFunction) (values : List Scalar) : Except Error Scalar :=
  let present := values.filter (· ≠ .null)
  if f = count then .ok (.number (.ofNat present.length))
  else do
    let numbers ← present.mapM f.number
    return ofNumbers numbers f

end AggregateFunction

end TableDoc.Formula
