import TableDoc.Cell
import TableDoc.Span

/-!
# Schemas

A schema declares the tables of a document: the columns of each, its key, the types of columns,
computed columns and aggregates. It knows where in the front section its entries stand. The entry of
an aggregate may end in `by` and a column, which makes it one value for each value of that column
(`AggregateDefinition.ofText`).
-/

namespace TableDoc

/-- A column computed from the others of its row. -/
structure ComputedColumn where
  name : String
  expression : String
  deriving DecidableEq, Repr

/-- The declaration of a computed column in JSON. -/
def ComputedColumn.toJson (c : ComputedColumn) : Json :=
  .object [("name", .text c.name), ("expression", .text c.expression)]

/-- A value of a whole table, or of each group of its rows. -/
structure AggregateDefinition where
  name : String
  expression : String
  /-- The column whose values make the groups. -/
  groupBy : Option String
  deriving DecidableEq, Repr

namespace AggregateDefinition

/-- The last word of a text, blanks after it apart, and what stands before it. -/
def lastWord (cs : List Char) : List Char × List Char :=
  let backwards := (Text.trimEnd cs).reverse
  ((backwards.dropWhile (! Text.isBlank ·)).reverse,
    (backwards.takeWhile (! Text.isBlank ·)).reverse)

/-- A letter or underscore, and then letters, digits and underscores, all of ASCII. -/
def isColumnName : List Char → Bool
  | [] => false
  | c :: cs => (c.isAlpha || c = '_') && cs.all fun c => c.isAlphanum || c = '_'

/-- The parts of a grouped entry: an expression on one line, `by`, and a column. -/
def splitGrouping? (source : List Char) : Option (List Char × List Char) :=
  let (beforeColumn, column) := lastWord source
  let (beforeBy, by_) := lastWord beforeColumn
  let expression := Text.trimEnd beforeBy
  if isColumnName column ∧ by_ = ['b', 'y'] ∧ expression ≠ [] ∧ '\n' ∉ expression then
    some (expression, column)
  else none

/-- The aggregate of an entry. -/
def ofText (name source : String) : AggregateDefinition :=
  match splitGrouping? source.toList with
  | some (expression, column) => ⟨name, .ofList expression, some (.ofList column)⟩
  | none => ⟨name, .ofList (Text.trim source.toList), none⟩

/-- The declaration of an aggregate in JSON. -/
def toJson (a : AggregateDefinition) : Json :=
  .object <| [("name", .text a.name), ("expression", .text a.expression)] ++
    (a.groupBy.map fun column => ("groupBy", Json.text column)).toList

end AggregateDefinition

/-- The declaration of one table. -/
structure TableSchema where
  name : String
  /-- The columns of the document's table, in order. -/
  columns : List String
  /-- The column that tells the rows apart. -/
  key : String := "id"
  types : List (String × ColumnType) := []
  computed : List ComputedColumn := []
  aggregates : List AggregateDefinition := []
  emptyCells : EmptyCells := .null
  deriving DecidableEq, Repr

namespace TableSchema

/-- The declared type of a column. -/
def columnType? (t : TableSchema) (column : String) : Option ColumnType := t.types.lookup column

/-- The column is declared. -/
def hasColumn (t : TableSchema) (column : String) : Bool := t.columns.contains column

/-- The column is computed. -/
def hasComputed (t : TableSchema) (column : String) : Bool := t.computed.any (·.name = column)

/-- The names of all columns. -/
def allColumns (t : TableSchema) : List String := t.columns ++ t.computed.map ComputedColumn.name

/-- The declaration of a table in JSON. -/
def toJson (t : TableSchema) : Json :=
  .object [("name", .text t.name), ("columns", .array (t.columns.map .text)), ("key", .text t.key),
    ("types", .object (t.types.map fun (column, type) => (column, .text type.name))),
    ("computed", .array (t.computed.map ComputedColumn.toJson)),
    ("aggregates", .array (t.aggregates.map AggregateDefinition.toJson)),
    ("emptyCells", .text t.emptyCells.name)]

end TableSchema

/-- The parts of a declaration that have named entries. -/
inductive Section where
  | types
  | computed
  | aggregates
  deriving DecidableEq, Repr

namespace Section

/-- The word for a part. -/
def name : Section → String
  | types => "types"
  | computed => "computed"
  | aggregates => "aggregates"

/-- The part with this name. -/
def ofName? : String → Option Section
  | "types" => some types
  | "computed" => some computed
  | "aggregates" => some aggregates
  | _ => none

end Section

/-- Where the entries of a schema stand; of several places of an entry the first in the list counts.
-/
structure EntryMap where
  tables : List (String × Span) := []
  entries : List ((String × Section × String) × Span) := []

namespace EntryMap

/-- Where the declaration of a table stands. -/
def table? (m : EntryMap) (table : String) : Option Span := m.tables.lookup table

/-- Where a named entry stands. -/
def entry? (m : EntryMap) (table : String) (part : Section) (name : String) : Option Span :=
  m.entries.lookup (table, part, name)

end EntryMap

/-- The declarations of a document. -/
structure Schema where
  version : String
  tables : List TableSchema
  /-- The line that closes the front section. -/
  frontEnd : Nat
  places : EntryMap

namespace Schema

/-- The declaration of a table. -/
def table? (s : Schema) (name : String) : Option TableSchema := s.tables.find? (·.name = name)

/-- Where the declaration of a table stands. -/
def tableSpan? (s : Schema) (table : String) : Option Span := s.places.table? table

/-- Where a named entry stands, or else the declaration of its table. -/
def entrySpan? (s : Schema) (table : String) (part : Section) (name : String) : Option Span :=
  s.places.entry? table part name <|> s.tableSpan? table

/-- A schema in JSON. -/
def toJson (s : Schema) : Json :=
  .object [("mdxtab", .text s.version),
    ("tables", .object (s.tables.map fun t => (t.name, t.toJson)))]

end Schema

end TableDoc
