/-!
# Operators

Binary operators are arithmetic, comparisons or connectives. `BinaryOperator.power` says how tightly
one binds; all are folded to the left, but a comparison is not chained.
-/

namespace TableDoc.Formula

/-- The operators on two numbers. -/
inductive Arithmetic where
  | add
  | subtract
  | multiply
  | divide
  deriving DecidableEq, Repr

/-- The comparisons. -/
inductive Comparison where
  | equal
  | notEqual
  | less
  | lessEqual
  | greater
  | greaterEqual
  deriving DecidableEq, Repr

/-- The operators on two truth values. -/
inductive Connective where
  | and
  | or
  deriving DecidableEq, Repr

/-- The operators that stand between two operands. -/
inductive BinaryOperator where
  | arithmetic (op : Arithmetic)
  | comparison (op : Comparison)
  | connective (op : Connective)
  deriving DecidableEq, Repr

/-- The operators that stand before their operand. -/
inductive UnaryOperator where
  | plus
  | negate
  deriving DecidableEq, Repr

/-- How an arithmetic operator is written. -/
def Arithmetic.symbol : Arithmetic → String
  | add => "+"
  | subtract => "-"
  | multiply => "*"
  | divide => "/"

/-- How a comparison is written. -/
def Comparison.symbol : Comparison → String
  | equal => "=="
  | notEqual => "!="
  | less => "<"
  | lessEqual => "<="
  | greater => ">"
  | greaterEqual => ">="

/-- How a connective is written. -/
def Connective.symbol : Connective → String
  | and => "and"
  | or => "or"

namespace BinaryOperator

/-- How an operator is written. -/
def symbol : BinaryOperator → String
  | arithmetic op => op.symbol
  | comparison op => op.symbol
  | connective op => op.symbol

/-- The operator written so. -/
def ofSymbol? : String → Option BinaryOperator
  | "+" => some (arithmetic .add)
  | "-" => some (arithmetic .subtract)
  | "*" => some (arithmetic .multiply)
  | "/" => some (arithmetic .divide)
  | "==" => some (comparison .equal)
  | "!=" => some (comparison .notEqual)
  | "<" => some (comparison .less)
  | "<=" => some (comparison .lessEqual)
  | ">" => some (comparison .greater)
  | ">=" => some (comparison .greaterEqual)
  | "and" => some (connective .and)
  | "or" => some (connective .or)
  | _ => none

/-- How tightly an operator binds: the greater power first. -/
def power : BinaryOperator → Nat
  | connective _ => 30
  | comparison _ => 40
  | arithmetic .add | arithmetic .subtract => 50
  | arithmetic .multiply | arithmetic .divide => 60

/-- The operator compares. -/
def isComparison : BinaryOperator → Bool
  | comparison _ => true
  | _ => false

@[simp] theorem ofSymbol?_symbol (op : BinaryOperator) : ofSymbol? op.symbol = some op := by
  rcases op with op | op | op <;> cases op <;> rfl

end BinaryOperator

namespace UnaryOperator

/-- How an operator is written. -/
def symbol : UnaryOperator → String
  | plus => "+"
  | negate => "-"

/-- The operator written so. -/
def ofSymbol? : String → Option UnaryOperator
  | "+" => some plus
  | "-" => some negate
  | _ => none

/-- Signs bind tighter than every binary operator. -/
def power : Nat := 70

@[simp] theorem ofSymbol?_symbol (op : UnaryOperator) : ofSymbol? op.symbol = some op := by
  cases op <;> rfl

end UnaryOperator

end TableDoc.Formula
