import TableDoc.Schema.Basic
import TableDoc.Yaml.Loader

/-!
# What is wrong with a schema

`TableSchema.Fault` lists what can be wrong with the declaration of a table, `Schema.Fault` all that
can be wrong with a front section. `Schema.Fault.toDiagnostic` has the places: a fault in a named
entry is placed there, and every other fault of a table at the table's declaration.
-/

namespace TableDoc

/-- What is wrong with the declaration of a table. -/
inductive TableSchema.Fault where
  | notMapping
  | columnsNotTexts
  | noColumns
  | repeatedColumn (column : String)
  | keyNotText
  | partNotMapping (part : Section)
  | entryNotNamed (part : Section)
  | unknownType (column found : String)
  | typeOfUnknownColumn (column : String)
  | computedNotText (column : String)
  | computedDeclared (column : String)
  | aggregateNotText (aggregate : String)
  | unknownEmptyCells (found : String)
  deriving DecidableEq, Repr

namespace TableSchema.Fault

/-- The text of a fault of a table. -/
def message (table : String) : Fault → String
  | notMapping => s!"Invalid table {table}: expected object"
  | columnsNotTexts => s!"Invalid columns for table {table}: expected array of strings"
  | noColumns => s!"Invalid columns for table {table}: must not be empty"
  | repeatedColumn column => s!"Duplicate column {column} in table {table}"
  | keyNotText => s!"Invalid key for table {table}: expected string"
  | partNotMapping part => s!"Invalid {part.name} for table {table}: expected object"
  | entryNotNamed part => s!"Invalid {part.name} for table {table}: expected string keys"
  | unknownType column found => s!"Invalid type for {table}.{column}: {found}"
  | typeOfUnknownColumn column => s!"Type declared for unknown column {table}.{column}"
  | computedNotText column => s!"Invalid computed expression for {table}.{column}: expected string"
  | computedDeclared column => s!"Computed column {table}.{column} collides with a declared column"
  | aggregateNotText aggregate =>
    s!"Invalid aggregate expression for {table}.{aggregate}: expected string"
  | unknownEmptyCells found => s!"Invalid empty_cells value for table {table}: {found}"

/-- The column of a fault. -/
def column? : Fault → Option String
  | repeatedColumn column | unknownType column _ | typeOfUnknownColumn column
  | computedNotText column | computedDeclared column => some column
  | _ => none

/-- The aggregate of a fault. -/
def aggregate? : Fault → Option String
  | aggregateNotText aggregate => some aggregate
  | _ => none

/-- The entry of a fault. -/
def entry? : Fault → Option (Section × String)
  | unknownType column _ | typeOfUnknownColumn column => some (.types, column)
  | computedNotText column | computedDeclared column => some (.computed, column)
  | aggregateNotText aggregate => some (.aggregates, aggregate)
  | _ => none

end TableSchema.Fault

/-- What is wrong with a front section. -/
inductive Schema.Fault where
  /-- The document does not start with a front section. -/
  | notOpened (firstLine : List Char)
  | notClosed
  /-- The section is no YAML. The first line that the loader sees is the one after the opening
  delimiter. -/
  | yaml (failure : Yaml.Failure)
  | rootNotMapping
  | versionNotText
  | unsupportedVersion (version : String)
  | tablesNotMapping
  | tableNotNamed
  | table (name : String) (fault : TableSchema.Fault)

namespace Schema.Fault

/-- The text of a fault. -/
def message : Fault → String
  | notOpened _ => "Frontmatter must start with ---"
  | notClosed => "Closing --- for frontmatter not found"
  | yaml ⟨some text, _⟩ => s!"Invalid YAML: {text}"
  | yaml ⟨none, _⟩ => "Invalid YAML"
  | rootNotMapping => "Invalid frontmatter root: expected object"
  | versionNotText => "Invalid mdxtab version: expected string"
  | unsupportedVersion version => s!"Unsupported mdxtab version: {version}"
  | tablesNotMapping => "Invalid tables: expected object"
  | tableNotNamed => "Invalid table name: expected string"
  | table name fault => fault.message name

/-- The opening delimiter. -/
def opening : Span := .within 0 0 3

/-- Where a fault stands, given the places of entries. -/
def span? (places : EntryMap) : Fault → Option Span
  | notOpened firstLine => some (.ofLine 0 firstLine)
  | notClosed | yaml ⟨_, none⟩ => some opening
  | yaml ⟨_, some location⟩ =>
    some (.within (max location.line 1) (location.column - 1) (location.column - 1 + 1))
  | table name fault =>
    (fault.entry?.bind fun (part, entry) => places.entry? name part entry) <|> places.table? name
  | _ => none

/-- The fault as a failure of the document. -/
def toDiagnostic (places : EntryMap) (f : Fault) : Diagnostic :=
  let d : Diagnostic := { code := .frontmatter, message := f.message, span := f.span? places }
  match f with
  | table name fault =>
    { d with table := name, column := fault.column?, aggregate := fault.aggregate? }
  | _ => d

end Schema.Fault

end TableDoc
