import TableDoc.Row
import TableDoc.Formula.References
import TableDoc.Formula.Rounding

/-!
# Values of formulas

`Context` is what a formula can reach: the columns of a row, rows of other tables and aggregates.
The last two may have effects, such as computing a row when it is first looked up, so they live in a
monad that the evaluation does not look into. `Expr.value` gives a scalar or, for a lookup, a row;
`Expr.evaluate` insists on a scalar. Both operands of an operator are always evaluated, but only one
branch of `if`.
-/

namespace TableDoc.Formula

/-- What a formula can reach while it is evaluated. -/
structure Context (m : Type → Type) where
  /-- The value of a column of the row at hand. -/
  resolve : String → Option Scalar
  /-- The row of a table with a key. -/
  lookup : String → Scalar → ExceptT Error m Row
  /-- A column folded over the rows at hand. -/
  aggregate : AggregateFunction → String → ExceptT Error m Scalar

/-- A row, with neither tables nor aggregates. -/
def Context.ofRow (r : Row) : Context Id where
  resolve := r.get?
  lookup table key := throw (.lookup (.noTables table key))
  aggregate f _ := throw (.aggregateInRow f.name)

/-- What a formula gives. -/
inductive Value where
  | scalar (s : Scalar)
  | row (r : Row)

/-- A value that has to be a scalar. -/
def Value.toScalar : Value → Except Error Scalar
  | scalar s => .ok s
  | row _ => .error (.type .rowAsScalar)

/-- A field of a value that has to be a row. -/
def Value.field (name : String) : Value → Except Error Scalar
  | row r =>
    match r.get? name with
    | some s => .ok s
    | none => .error (.unknownReference name)
  | scalar s => .error (.type (.memberOf name s.kind))

/-- A signed value. -/
def UnaryOperator.apply (op : UnaryOperator) : Scalar → Except Error Scalar
  | .null => .ok .null
  | .number x => .ok (.number (match op with | plus => x | negate => -x))
  | s => .error (.type (.unary op s.kind))

/-- The operation on two numbers. -/
def Arithmetic.compute (x y : Float) : Arithmetic → Except Error Float
  | add => .ok (x + y)
  | subtract => .ok (x - y)
  | multiply => .ok (x * y)
  | divide => if y == 0.0 then .error .divideByZero else .ok (x / y)

/-- The operation on two values; null on either side gives null. -/
def Arithmetic.apply (op : Arithmetic) : Scalar → Scalar → Except Error Scalar
  | .number x, .number y => return .number (← op.compute x y)
  | .null, .null | .null, .number _ | .number _, .null => .ok .null
  | l, r => .error (.type (.arithmetic op l.kind r.kind))

/-- The order of two numbers, if they have one. -/
def compareNumbers? (x y : Float) : Option Ordering :=
  if x < y then some .lt else if x == y then some .eq else if y < x then some .gt else none

/-- The comparison holds of values in this order; values without order are only different. -/
def Comparison.holds (op : Comparison) : Option Ordering → Bool
  | none => op = notEqual
  | some o =>
    match op with
    | equal => o = .eq
    | notEqual => o ≠ .eq
    | less => o = .lt
    | lessEqual => o ≠ .gt
    | greater => o = .gt
    | greaterEqual => o ≠ .lt

/-- The comparison of two values; with null it never holds. Texts are in the order of their
characters' code points, and false is less than true. -/
def Comparison.apply (op : Comparison) : Scalar → Scalar → Except Error Bool
  | .null, _ | _, .null => .ok false
  | .number x, .number y => .ok (op.holds (compareNumbers? x y))
  | .text s, .text t => .ok (op.holds (some (compare s t)))
  | .boolean a, .boolean b => .ok (op.holds (some (compare a b)))
  | l, r => .error (.type (.comparison op l.kind r.kind))

/-- The operation on two truth values. -/
def Connective.apply (op : Connective) : Scalar → Scalar → Except Error Bool
  | .boolean a, .boolean b => .ok (match op with | and => a && b | or => a || b)
  | l, r => .error (.type (.connective op l.kind r.kind))

/-- The operation on two values. -/
def BinaryOperator.apply (l r : Scalar) : BinaryOperator → Except Error Scalar
  | arithmetic op => op.apply l r
  | comparison op => return .boolean (← op.apply l r)
  | connective op => return .boolean (← op.apply l r)

/-- The least and greatest number of places that `round` tells apart. -/
def placesBound : Int × Int := (-2147483648, 2147483647)

/-- Rounds a value; null on either side gives null. -/
def roundValue : Scalar → Scalar → Except Error Scalar
  | .number x, .number places =>
    .ok (.number (roundHalfEven x (Decimal.clampToInt placesBound.1 placesBound.2 places)))
  | .null, .null | .null, .number _ | .number _, .null => .ok .null
  | value, places => .error (.type (.round value.kind places.kind))

variable {m : Type → Type} [Monad m]

/-- The value of a formula. -/
def Expr.value (ctx : Context m) : Expr → ExceptT Error m Value
  | .number x => return .scalar (.number x)
  | .text s => return .scalar (.text s)
  | .boolean b => return .scalar (.boolean b)
  | .identifier name =>
    match ctx.resolve name with
    | some s => return .scalar s
    | none => throw (.unknownReference name)
  | .unary op operand => do
    let s ← (← operand.value ctx).toScalar
    return .scalar (← op.apply s)
  | .binary op left right => do
    let l ← (← left.value ctx).toScalar
    let r ← (← right.value ctx).toScalar
    return .scalar (← op.apply l r)
  | .call function arguments =>
    match Builtin.ofName? function with
    | some .round =>
      match arguments with
      | [amount, places] => do
        let s ← (← amount.value ctx).toScalar
        let n ← (← places.value ctx).toScalar
        return .scalar (← roundValue s n)
      | _ => throw (Builtin.round.arityError arguments.length)
    | some .cond =>
      match arguments with
      | [condition, yes, no] => do
        match ← (← condition.value ctx).toScalar with
        | .boolean true => yes.value ctx
        | .boolean false => no.value ctx
        | s => throw (.type (.condition s.kind))
      | _ => throw (Builtin.cond.arityError arguments.length)
    | none =>
      match AggregateFunction.ofName? function with
      | some f => do
        let column ← aggregateColumn function arguments
        return .scalar (← ctx.aggregate f column)
      | none => throw (.unknownFunction function)
  | .member base field => do
    let v ← base.value ctx
    return .scalar (← v.field field)
  | .lookup table key =>
    match table.identifier? with
    | none => throw (.lookup .notATable)
    | some name => do
      let k ← (← key.value ctx).toScalar
      return .row (← ctx.lookup name k)

/-- The scalar that a formula gives. -/
def Expr.evaluate (ctx : Context m) (e : Expr) : ExceptT Error m Scalar := do
  (← e.value ctx).toScalar

end TableDoc.Formula
