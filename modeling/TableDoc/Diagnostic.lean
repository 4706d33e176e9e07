import TableDoc.Diagnostic.Code
import TableDoc.Span

/-!
# Diagnostics

A diagnostic is one failure of a document: its code and message, and as much of the place as is
known. The layers that a failure passes on its way out add what they know with `orTable`, `orColumn`
and so on, which keep what an inner layer has said.
-/

namespace TableDoc

/-- How much a diagnostic matters. -/
inductive Diagnostic.Severity where
  | error
  | warning
  deriving DecidableEq, Repr

/-- The word for a severity. -/
def Diagnostic.Severity.name : Severity → String
  | error => "error"
  | warning => "warning"

/-- One failure and its place. -/
structure Diagnostic where
  code : Diagnostic.Code
  message : String
  severity : Diagnostic.Severity := .error
  table : Option String := none
  column : Option String := none
  aggregate : Option String := none
  rowKey : Option String := none
  span : Option Span := none
  deriving DecidableEq, Repr

namespace Diagnostic

/-- A diagnostic without place, its code taken from the message. -/
def ofMessage (message : String) : Diagnostic := { code := .ofMessage message, message }

/-- Sets the table unless there is one. -/
def orTable (d : Diagnostic) (table : String) : Diagnostic :=
  { d with table := some (d.table.getD table) }

/-- Sets the column unless there is one. -/
def orColumn (d : Diagnostic) (column : String) : Diagnostic :=
  { d with column := some (d.column.getD column) }

/-- Sets the aggregate unless there is one. -/
def orAggregate (d : Diagnostic) (aggregate : String) : Diagnostic :=
  { d with aggregate := some (d.aggregate.getD aggregate) }

/-- Sets the row key unless there is one. -/
def orRowKey (d : Diagnostic) (rowKey : String) : Diagnostic :=
  { d with rowKey := some (d.rowKey.getD rowKey) }

/-- Sets the span, if one is known, unless there is one. -/
def orSpan (d : Diagnostic) (span : Option Span) : Diagnostic :=
  { d with span := d.span <|> span }

/-- The diagnostic on one line. -/
def toText (d : Diagnostic) : String := s!"[{d.code.text}] {d.message}"

/-- The named places, or none. -/
def context? (d : Diagnostic) : Option String :=
  let places := [("table", d.table), ("column", d.column), ("aggregate", d.aggregate),
    ("row", d.rowKey)].filterMap fun (label, name) => name.map fun n => s!"{label}={n}"
  if places = [] then none else some (", ".intercalate places)

/-- The diagnostic in JSON; what is not known is left out. -/
def toJson (d : Diagnostic) : Json :=
  let known (name : String) (value : Option Json) : List (String × Json) :=
    (value.map fun v => (name, v)).toList
  .object <|
    [("code", .text d.code.text), ("message", .text d.message),
      ("severity", .text d.severity.name)] ++
    known "table" (d.table.map .text) ++ known "column" (d.column.map .text) ++
    known "aggregate" (d.aggregate.map .text) ++ known "rowKey" (d.rowKey.map .text) ++
    known "range" (d.span.map Span.toJson)

end Diagnostic

end TableDoc
