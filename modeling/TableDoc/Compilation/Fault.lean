import TableDoc.Diagnostic

/-!
# Where declarations and tables disagree

`Compilation.Fault` lists the ways in which the tables of a document can differ from what its schema
declares. Each is a failure of one table; `Fault.toDiagnostic` adds the names that it is about.
-/

namespace TableDoc.Compilation

/-- What is wrong with a table. -/
inductive Fault where
  /-- A table of the document that the schema does not declare. -/
  | undeclared
  /-- A second table of one name in the document. -/
  | repeated
  /-- A declared table that the document does not have. -/
  | missing
  | wrongHeader (expected found : String)
  /-- A header beyond the declared columns. -/
  | extraHeader (found : String)
  | missingHeader (column : String)
  /-- The key is not a declared column. -/
  | keyNotColumn (key : String)
  /-- A row whose cell in the key column is null or has no text. -/
  | missingKey (column : String)
  | repeatedKey (key : String)
  | unknownGroupColumn (aggregate column : String)
  deriving DecidableEq, Repr

namespace Fault

/-- The text of a fault of a table. -/
def message (table : String) : Fault → String
  | undeclared => s!"Markdown table {table} not declared in frontmatter"
  | repeated => s!"Duplicate table {table} in markdown"
  | missing => s!"Missing markdown table for {table}"
  | wrongHeader expected found =>
    s!"Header mismatch for table {table}: expected {expected}, got {found}"
  | extraHeader found => s!"Header mismatch for table {table}: unexpected column {found}"
  | missingHeader column => s!"Header column count mismatch for table {table}: missing {column}"
  | keyNotColumn key => s!"Key column {key} is not declared for table {table}"
  | missingKey _ => s!"Missing key value in table {table}"
  | repeatedKey key => s!"Duplicate key {key} in table {table}"
  | unknownGroupColumn aggregate column =>
    s!"Unknown group column {column} for aggregate {table}.{aggregate}"

/-- The code of a fault. -/
def code : Fault → Diagnostic.Code
  | undeclared | repeated | missing => .table
  | wrongHeader .. | extraHeader _ | missingHeader _ => .columnMismatch
  | keyNotColumn _ => .keyColumn
  | missingKey _ => .key
  | repeatedKey _ => .keyDuplicate
  | unknownGroupColumn .. => .reference

/-- The column of a fault. -/
def column? : Fault → Option String
  | wrongHeader column _ | missingHeader column | keyNotColumn column | missingKey column =>
    some column
  | _ => none

/-- The fault as a failure of the document. -/
def toDiagnostic (table : String) (span : Option Span) (f : Fault) : Diagnostic :=
  let d : Diagnostic :=
    { code := f.code, message := f.message table, table, column := f.column?, span }
  match f with
  | repeatedKey key => { d with rowKey := key }
  | unknownGroupColumn aggregate _ => { d with aggregate }
  | _ => d

end Fault

end TableDoc.Compilation
