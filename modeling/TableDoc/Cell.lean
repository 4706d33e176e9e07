import TableDoc.Decimal.Numeral
import TableDoc.Diagnostic
import TableDoc.Scalar
import TableDoc.Text.Blank
import TableDoc.Text.Digit

/-!
# Values of cells

`coerce` turns the text of a cell into a value. A cell of a column without a type is a boolean, a
number or a text, whichever fits first; a cell of a typed column must be of its type, and every cell
is a text. The digits of a number may be of any script when its form is recognised, but only the
digits of ASCII can be read, so a cell with others fails instead of passing for a text. Whether a
text that has the form of a date is one is left to a `DateReader`.
-/

namespace TableDoc

/-- The types of columns. -/
inductive ColumnType where
  | number
  | text
  | date
  | boolean
  deriving DecidableEq, Repr

namespace ColumnType

/-- The word for a type. -/
def name : ColumnType → String
  | number => "number"
  | text => "string"
  | date => "date"
  | boolean => "bool"

/-- The type with this name. -/
def ofName? : String → Option ColumnType
  | "number" => some number
  | "string" => some text
  | "date" => some date
  | "bool" => some boolean
  | _ => none

end ColumnType

/-- What an empty cell is. -/
inductive EmptyCells where
  | null
  | zero
  | emptyText
  /-- Empty cells are not allowed. -/
  | error
  deriving DecidableEq, Repr

namespace EmptyCells

/-- The word for a policy. -/
def name : EmptyCells → String
  | null => "null"
  | zero => "zero"
  | emptyText => "empty-string"
  | error => "error"

/-- The policy with this name. -/
def ofName? : String → Option EmptyCells
  | "null" => some null
  | "zero" => some zero
  | "empty-string" => some emptyText
  | "error" => some error
  | _ => none

end EmptyCells

namespace Cell

/-- Why a cell has no value. -/
inductive Fault where
  /-- The cell is empty. -/
  | empty
  /-- The form is that of a number, but not its digits. -/
  | unreadableNumber (text : String)
  /-- The form is that of a date, but there is no such day. -/
  | noSuchDate (text : String)
  | mismatch (text : String) (type : ColumnType)
  deriving DecidableEq, Repr

namespace Fault

/-- The text of a fault. -/
def message : Fault → String
  | empty => "Empty cell not allowed"
  | unreadableNumber text => s!"Invalid number '{text}'"
  | noSuchDate text => s!"Type mismatch: '{text}' is not a calendar date"
  | mismatch text type => s!"Type mismatch: cannot coerce '{text}' to {type.name}"

/-- The code of a fault. -/
def code : Fault → Diagnostic.Code
  | empty => .emptyCell
  | _ => .type

/-- The fault as a failure of the document, its place still to be said. -/
def toDiagnostic (f : Fault) : Diagnostic := { code := f.code, message := f.message }

end Fault

open Text (isDecimalDigit)

/-- One or more digits. -/
def isDigits (cs : List Char) : Bool := cs ≠ [] && cs.all isDecimalDigit

/-- Digits, with or without a point and further digits. -/
def isUnsignedNumber (cs : List Char) : Bool :=
  let whole := cs.takeWhile isDecimalDigit
  whole ≠ [] && match cs.dropWhile isDecimalDigit with
    | [] => true
    | c :: places => c = '.' && isDigits places

/-- The form of a number. -/
def isNumber : List Char → Bool
  | '-' :: cs => isUnsignedNumber cs
  | cs => isUnsignedNumber cs

/-- The form of a date: year, month and day in four, two and two digits. -/
def isDateShaped : List Char → Bool
  | [y₁, y₂, y₃, y₄, '-', m₁, m₂, '-', d₁, d₂] =>
    [y₁, y₂, y₃, y₄, m₁, m₂, d₁, d₂].all isDecimalDigit
  | _ => false

/-- A reader of dates. -/
class DateReader where
  /-- The text is a date: its year, month and day with hyphens between them. -/
  isDate : List Char → Bool

/-- The value of an empty cell. -/
def ofEmpty : EmptyCells → Except Fault Scalar
  | .null => .ok .null
  | .zero => .ok (.number 0.0)
  | .emptyText => .ok (.text "")
  | .error => .error .empty

/-- A column of the declared type, or without one, may hold values of this type. -/
def accepts (declared : Option ColumnType) (type : ColumnType) : Bool :=
  declared.all (· = type)

variable [DateReader]

/-- The value of a cell that is not empty, given its text without blanks at the ends. -/
def ofText (text : List Char) (type : Option ColumnType) : Except Fault Scalar :=
  if (text = "true".toList || text = "false".toList) && accepts type .boolean then
    .ok (.boolean (text = "true".toList))
  else if isNumber text && accepts type .number then
    match Decimal.read? text with
    | some x => .ok (.number x)
    | none => .error (.unreadableNumber (.ofList text))
  else if isDateShaped text && accepts type .date then
    if type = some .date && ! DateReader.isDate text then .error (.noSuchDate (.ofList text))
    else .ok (.text (.ofList text))
  else match type with
    | none | some .text => .ok (.text (.ofList text))
    | some type => .error (.mismatch (.ofList text) type)

/-- The value of a cell. -/
def coerce (raw : List Char) (type : Option ColumnType) (empty : EmptyCells) :
    Except Fault Scalar :=
  match Text.trim raw with
  | [] => ofEmpty empty
  | text => ofText text type

end Cell

end TableDoc
