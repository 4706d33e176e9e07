import TableDoc.Text.Word

/-!
# Diagnostic codes

Each cause of failure has a stable code, written `E_` and a name in capitals. `Code.ofMessage` finds
the code that a free text mentions: the first word of the text that has the form of a code decides.
-/

namespace TableDoc.Diagnostic

/-- The causes of failure. -/
inductive Code where
  /-- Computed columns of one table that read each other. -/
  | cycle
  /-- A chain of lookups that comes back to a row still being computed. -/
  | lookupCycle
  /-- An aggregate whose argument is not one column. -/
  | aggregateArgument
  /-- The body refers to an aggregate that does not exist. -/
  | aggregateReference
  /-- An aggregate in a computed column. -/
  | aggregateInRow
  /-- A missing, repeated or undeclared table. -/
  | table
  /-- A tab in a data cell. -/
  | tableTab
  /-- A data row with more or fewer cells than the header. -/
  | tableColumnCount
  /-- A header that is not the declared columns. -/
  | columnMismatch
  /-- A key column that is not declared. -/
  | keyColumn
  /-- A row without a key. -/
  | key
  /-- A key that a table has twice. -/
  | keyDuplicate
  /-- A value of the wrong kind. -/
  | type
  /-- A division by zero. -/
  | divideByZero
  /-- An unknown column or field. -/
  | reference
  /-- An unknown table or row. -/
  | lookup
  /-- An unknown function. -/
  | function
  /-- An operator without meaning. -/
  | operator
  /-- The wrong number of arguments. -/
  | argument
  /-- A malformed metadata section. -/
  | frontmatter
  /-- An empty cell where none is allowed. -/
  | emptyCell
  /-- A character that no formula has. -/
  | lex
  /-- A malformed formula. -/
  | parse
  /-- Anything without a code of its own. -/
  | unknown
  deriving DecidableEq, Repr

namespace Code

/-- All codes. -/
def all : List Code :=
  [cycle, lookupCycle, aggregateArgument, aggregateReference, aggregateInRow, table, tableTab,
    tableColumnCount, columnMismatch, keyColumn, key, keyDuplicate, type, divideByZero, reference,
    lookup, function, operator, argument, frontmatter, emptyCell, lex, parse, unknown]

/-- The code in output. -/
def text : Code → String
  | cycle => "E_CYCLE"
  | lookupCycle => "E_LOOKUP_CYCLE"
  | aggregateArgument => "E_AGG_ARGUMENT"
  | aggregateReference => "E_AGG_REF"
  | aggregateInRow => "E_AGG_IN_ROW"
  | table => "E_TABLE"
  | tableTab => "E_TABLE_TAB"
  | tableColumnCount => "E_TABLE_COLUMN_COUNT"
  | columnMismatch => "E_COLUMN_MISMATCH"
  | keyColumn => "E_KEY_COLUMN"
  | key => "E_KEY"
  | keyDuplicate => "E_KEY_DUP"
  | type => "E_TYPE"
  | divideByZero => "E_DIV_ZERO"
  | reference => "E_REF"
  | lookup => "E_LOOKUP"
  | function => "E_FUNC"
  | operator => "E_OP"
  | argument => "E_ARG"
  | frontmatter => "E_FRONTMATTER"
  | emptyCell => "E_EMPTY_CELL"
  | lex => "E_LEX"
  | parse => "E_PARSE"
  | unknown => "E_UNKNOWN"

/-- The code with this text. -/
def ofText? (s : String) : Option Code := all.find? (·.text = s)

/-- The form of a code: `E_`, then at least one capital, digit or underscore and nothing else. -/
def isCodeShaped : List Char → Bool
  | 'E' :: '_' :: c :: cs => (c :: cs).all fun c => c.isUpper || c.isDigit || c == '_'
  | _ => false

/-- The words of a text; between neighbouring separators there are empty ones. -/
def words (message : List Char) : List (List Char) := message.splitOnP (! Text.isWordChar ·)

/-- The code that a text mentions. -/
def ofMessage (message : String) : Code :=
  (((words message.toList).find? isCodeShaped).bind fun w => ofText? (.ofList w)).getD unknown

theorem ofText?_text (c : Code) : ofText? c.text = some c := by cases c <;> decide

end Code

end TableDoc.Diagnostic
