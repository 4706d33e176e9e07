import TableDoc.Formula.Expr
import TableDoc.Formula.Function

/-!
# What a formula reads

`Expr.references` lists the columns of its own row that a formula reads, in order and with
repetitions, and fails if an aggregate is called with anything but one column. The column of an
aggregate and the table of a lookup are not columns of the row.
-/

namespace TableDoc.Formula

/-- The column that an aggregate, here under the name it is called by, folds. -/
def aggregateColumn (function : String) : List Expr → Except Error String
  | [.identifier column] => .ok column
  | _ => .error (.aggregateArgument function)

mutual

/-- The columns that a formula reads. -/
def Expr.references : Expr → Except Error (List String)
  | .number _ | .text _ | .boolean _ => .ok []
  | .identifier name => .ok [name]
  | .unary _ operand => operand.references
  | .binary _ left right => do
    let fromLeft ← left.references
    let fromRight ← right.references
    return fromLeft ++ fromRight
  | .call function arguments =>
    if (AggregateFunction.ofName? function).isSome then do
      let _ ← aggregateColumn function arguments
      return []
    else Expr.referencesOfAll arguments
  | .member base _ => base.references
  | .lookup _ key => key.references

/-- The columns that formulas read. -/
def Expr.referencesOfAll : List Expr → Except Error (List String)
  | [] => .ok []
  | e :: es => do
    let first ← e.references
    let others ← Expr.referencesOfAll es
    return first ++ others

end

/-- Fails if an aggregate is called with anything but one column. -/
def Expr.checkAggregates (e : Expr) : Except Error Unit := do
  let _ ← e.references

end TableDoc.Formula
