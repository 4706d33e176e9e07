import TableDoc.Row
import TableDoc.Schema.Basic

/-!
# Results

What a document comes to: the rows of each table with their computed columns, the aggregates, and
the text with the values of the aggregates in it.
-/

namespace TableDoc

/-- An aggregate with a value for each group. -/
structure GroupedAggregate where
  name : String
  /-- The groups in the order of their first rows. -/
  groups : List (String × Scalar)

namespace GroupedAggregate

/-- The value of a group. -/
def get? (g : GroupedAggregate) (key : String) : Option Scalar := g.groups.lookup key

/-- The groups in JSON. -/
def toJson (g : GroupedAggregate) : Json :=
  .object (g.groups.map fun (key, value) => (key, value.toJson))

end GroupedAggregate

/-- A table with its computed columns and aggregates. -/
structure TableResult where
  name : String
  rows : List Row
  /-- The values of the aggregates without groups. -/
  aggregates : Row
  grouped : List GroupedAggregate

namespace TableResult

/-- The grouped aggregate with a name. -/
def grouped? (t : TableResult) (name : String) : Option GroupedAggregate :=
  t.grouped.find? (·.name = name)

/-- A table in JSON. -/
def toJson (t : TableResult) : Json :=
  .object [("rows", .array (t.rows.map Row.toJson)), ("aggregates", t.aggregates.toJson),
    ("groupedAggregates", .object (t.grouped.map fun g => (g.name, g.toJson)))]

end TableResult

/-- What a document comes to. -/
structure Result where
  schema : Schema
  tables : List TableResult
  /-- The text with the values of the aggregates in it. -/
  rendered : String

namespace Result

/-- The table with a name. -/
def table? (r : Result) (name : String) : Option TableResult := r.tables.find? (·.name = name)

/-- A result in JSON. -/
def toJson (r : Result) : Json :=
  .object [("schema", r.schema.toJson),
    ("tables", .object (r.tables.map fun t => (t.name, t.toJson))), ("rendered", .text r.rendered)]

end Result

end TableDoc
