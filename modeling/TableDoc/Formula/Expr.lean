import TableDoc.Formula.Operator

/-!
# Formulas

The syntax tree of a formula. Rows appear only between a lookup and a field of its result.
-/

namespace TableDoc.Formula

/-- A formula. -/
inductive Expr where
  | number (x : Float)
  | text (s : String)
  | boolean (b : Bool)
  /-- A column of the row at hand, or the table of a lookup. -/
  | identifier (name : String)
  | unary (op : UnaryOperator) (operand : Expr)
  | binary (op : BinaryOperator) (left right : Expr)
  | call (function : String) (arguments : List Expr)
  /-- `base.field` -/
  | member (base : Expr) (field : String)
  /-- `table[key]` -/
  | lookup (table key : Expr)
  deriving Inhabited

/-- The name, if the formula is only a name. -/
def Expr.identifier? : Expr → Option String
  | identifier name => some name
  | _ => none

end TableDoc.Formula
