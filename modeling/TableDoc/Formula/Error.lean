import TableDoc.Diagnostic
import TableDoc.Scalar
import TableDoc.Formula.Token
import TableDoc.Formula.Operator

/-!
# What goes wrong with a formula

`Error` lists the causes, from reading a formula to evaluating it; `Error.message` has all the
wording and `Error.code` the code of each. An error that is already a diagnostic, because it arose
in another row, keeps its own code, message and place (`Error.toDiagnostic`).
-/

namespace TableDoc.Formula

/-- Why no token starts at some place. -/
inductive LexFault where
  /-- Two opening braces. -/
  | reservedBraces
  /-- A string without its closing quote. -/
  | unterminated
  /-- A character that starts no token. -/
  | unexpected (c : Char)
  deriving DecidableEq, Repr

/-- What a parser looked for. -/
inductive Expected where
  /-- The parenthesis that closes a group. -/
  | closing
  /-- The parenthesis that closes the arguments. -/
  | closingArguments
  /-- The bracket that closes a key. -/
  | closingBracket
  /-- A field name after a point. -/
  | field
  deriving DecidableEq, Repr

/-- What is wrong with a token where it stands. -/
inductive ParseFault where
  | invalidNumber
  | unexpected
  /-- The formula is complete before the token. -/
  | trailing
  /-- A comparison of a comparison. -/
  | chained
  /-- Another token is needed here. -/
  | expected (what : Expected)
  /-- Only a name can be called. -/
  | notCallable
  deriving DecidableEq, Repr

/-- A value of the wrong kind. -/
inductive TypeFault where
  /-- A whole row where a scalar is needed. -/
  | rowAsScalar
  | unary (op : UnaryOperator) (operand : Scalar.Kind)
  | arithmetic (op : Arithmetic) (left right : Scalar.Kind)
  | comparison (op : Comparison) (left right : Scalar.Kind)
  | connective (op : Connective) (left right : Scalar.Kind)
  | condition (found : Scalar.Kind)
  | round (value digits : Scalar.Kind)
  /-- A field of something that is not a row. -/
  | memberOf (field : String) (base : Scalar.Kind)
  /-- A value that the aggregate cannot fold. -/
  | aggregate (function : String) (value : Scalar)
  deriving DecidableEq

/-- Why a lookup finds no row. -/
inductive LookupFault where
  /-- The target is not a name. -/
  | notATable
  /-- There are no tables here. -/
  | noTables (table : String) (key : Scalar)
  | unknownTable (table : String)
  | missingRow (table key : String)
  deriving DecidableEq

/-- The causes for which a formula fails. -/
inductive Error where
  | lex (offset : Nat) (fault : LexFault)
  | parse (token : Token) (fault : ParseFault)
  /-- Columns that read each other, first and last the same. -/
  | cycle (path : List String)
  /-- An aggregate whose argument is not one column. -/
  | aggregateArgument (function : String)
  /-- An aggregate where only a row is at hand. -/
  | aggregateInRow (function : String)
  | type (fault : TypeFault)
  | divideByZero
  /-- An unknown column or field. -/
  | unknownReference (name : String)
  | unknownFunction (name : String)
  | argumentCount (function : String) (expected actual : Nat)
  | lookup (fault : LookupFault)
  /-- Rows whose lookups lead back to the first. -/
  | lookupCycle (path : List String)
  /-- A failure of another row. -/
  | inner (diagnostic : Diagnostic)
  deriving DecidableEq

/-- What is wrong, at this offset. -/
def LexFault.message (offset : Nat) : LexFault → String
  | reservedBraces =>
    "'\x7b\x7b' is reserved for document interpolation and not allowed in expressions"
  | unterminated => s!"unterminated string starting at offset {offset}"
  | unexpected c => s!"unexpected character '{c}' at offset {offset}"

/-- The token looked for. -/
def Expected.describe : Expected → String
  | closing => "')'"
  | closingArguments => "')' to close argument list"
  | closingBracket => "']'"
  | field => "field name after '.'"

/-- What is wrong with this token. -/
def ParseFault.message (t : Token) : ParseFault → String
  | invalidNumber => s!"invalid number '{t.text}'"
  | unexpected => s!"unexpected {t.describe} at offset {t.start}"
  | trailing => s!"unexpected token '{t.text}' at offset {t.start} after end of expression"
  | chained =>
    s!"comparison '{t.text}' at offset {t.start} cannot be chained; add parentheses"
  | expected what => s!"expected {what.describe} at offset {t.start}, found {t.describe}"
  | notCallable => s!"only a function name can be called (offset {t.start})"

/-- What is needed and what there is. -/
def TypeFault.message : TypeFault → String
  | rowAsScalar => "expected a scalar but got a row; select a field with '.'"
  | unary op operand => s!"unary '{op.symbol}' requires a number, got {operand.name}"
  | arithmetic op l r => s!"'{op.symbol}' requires numbers, got {l.name} and {r.name}"
  | comparison op l r => s!"cannot compare {l.name} with {r.name} using '{op.symbol}'"
  | connective op l r => s!"'{op.symbol}' requires booleans, got {l.name} and {r.name}"
  | condition found => s!"if condition must be a boolean, got {found.name}"
  | round value digits => s!"round requires numbers, got {value.name} and {digits.name}"
  | memberOf field base =>
    s!"cannot read field '{field}' of {base.name} value; only lookup results have fields"
  | aggregate function value =>
    s!"{function} requires numbers, got {value.kind.name} '{value.toText}'"

/-- What was looked for. -/
def LookupFault.message : LookupFault → String
  | notATable => "lookup target must be a table name"
  | noTables table key => s!"{table}[{key.toText}]: no tables are available"
  | unknownTable table => s!"unknown table {table}"
  | missingRow table key => s!"missing row {table}[{key}]"

namespace Error

/-- The text of an error. -/
def message : Error → String
  | lex offset fault => s!"Lex error at offset {offset}: {fault.message offset}"
  | parse token fault => s!"Parse error at offset {token.start}: {fault.message token}"
  | cycle path => "Cycle detected: " ++ " -> ".intercalate path
  | aggregateArgument function => s!"Aggregate {function} requires a single column identifier"
  | aggregateInRow function => s!"Aggregate {function} is not allowed in row evaluation"
  | type fault => s!"Type error: {fault.message}"
  | divideByZero => "Division by zero"
  | unknownReference name => s!"Unknown reference: {name}"
  | unknownFunction name => s!"Unknown function: {name}"
  | argumentCount function expected actual =>
    s!"Wrong number of arguments for {function}: expected {expected}, got {actual}"
  | lookup fault => s!"Lookup failed: {fault.message}"
  | lookupCycle path => "Lookup cycle detected: " ++ " -> ".intercalate path
  | inner diagnostic => diagnostic.toText

/-- The code of an error. -/
def code : Error → Diagnostic.Code
  | lex .. => .lex
  | parse .. => .parse
  | cycle _ => .cycle
  | aggregateArgument _ => .aggregateArgument
  | aggregateInRow _ => .aggregateInRow
  | type _ => .type
  | divideByZero => .divideByZero
  | unknownReference _ => .reference
  | unknownFunction _ => .function
  | argumentCount .. => .argument
  | lookup _ => .lookup
  | lookupCycle _ => .lookupCycle
  | inner diagnostic => diagnostic.code

/-- The error as a failure of the document, its place still to be said. -/
def toDiagnostic : Error → Diagnostic
  | inner diagnostic => diagnostic
  | error => { code := error.code, message := error.message }

@[simp] theorem toDiagnostic_inner (d : Diagnostic) : (inner d).toDiagnostic = d := rfl

end Error

end TableDoc.Formula
