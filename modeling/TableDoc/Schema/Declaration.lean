import TableDoc.Schema.Fault
import TableDoc.Schema.Layout

/-!
# Schemas from documents

`Schema.ofDocument` reads the front section of a document with a loader of YAML. The version and the
tables come first; then each table in order, its columns, key, types, computed columns, aggregates
and rule for empty cells. The first fault in this order counts. Names may be numbers or truth
values; they count by their text.
-/

namespace TableDoc

open Yaml (Value)

/-- The name that a key of a mapping is. -/
def nameOf? : Value → Option String
  | .text s => some s
  | .number n => some n.toText
  | .boolean b => some (if b then "true" else "false")
  | _ => none

/-- A value as it is called in messages. -/
def describe : Value → String
  | .text s => s
  | .number n => n.toText
  | .boolean b => if b then "true" else "false"
  | .null => "null"
  | .sequence _ => "a list"
  | .mapping _ => "a mapping"
  | .tagged _ value => describe value

namespace TableSchema

/-- The first item that is equal to one before it. -/
def firstRepeated? [DecidableEq α] (before : List α) : List α → Option α
  | [] => none
  | a :: as => if a ∈ before then some a else firstRepeated? (a :: before) as

/-- The columns of a declaration. -/
def readColumns (value : Option Value) : Except Fault (List String) :=
  match value.bind fun v => v.items?.bind (·.mapM Value.text?) with
  | none => .error .columnsNotTexts
  | some [] => .error .noColumns
  | some columns =>
    match firstRepeated? [] columns with
    | some column => .error (.repeatedColumn column)
    | none => .ok columns

/-- The key of a declaration, `id` if there is none. -/
def readKey : Option Value → Except Fault String
  | none => .ok "id"
  | some (.text key) => .ok key
  | some _ => .error .keyNotText

/-- The named entries of a part of a declaration. -/
def readPart (members : List (Value × Value)) (part : Section) :
    Except Fault (List (String × Value)) :=
  match Value.lookup? members part.name with
  | none | some .null => .ok []
  | some value =>
    match value.members? with
    | none => .error (.partNotMapping part)
    | some entries =>
      match entries.mapM fun (key, value) => (nameOf? key).map fun name => (name, value) with
      | none => .error (.entryNotNamed part)
      | some entries => .ok entries

/-- The type of a column. -/
def readType (columns : List String) (column : String) (value : Value) : Except Fault ColumnType :=
  match value.text?.bind ColumnType.ofName? with
  | none => .error (.unknownType column (describe value))
  | some type => if column ∈ columns then .ok type else .error (.typeOfUnknownColumn column)

/-- A computed column. -/
def readComputed (columns : List String) (column : String) (value : Value) :
    Except Fault ComputedColumn :=
  match value.text? with
  | none => .error (.computedNotText column)
  | some expression =>
    if column ∈ columns then .error (.computedDeclared column) else .ok ⟨column, expression⟩

/-- An aggregate. -/
def readAggregate (name : String) (value : Value) : Except Fault AggregateDefinition :=
  match value.text? with
  | none => .error (.aggregateNotText name)
  | some source => .ok (.ofText name source)

/-- The rule for empty cells. -/
def readEmptyCells : Option Value → Except Fault EmptyCells
  | none | some .null => .ok .null
  | some value =>
    match value.text?.bind EmptyCells.ofName? with
    | none => .error (.unknownEmptyCells (describe value))
    | some emptyCells => .ok emptyCells

/-- The declaration of a table. -/
def ofValue (name : String) (value : Value) : Except Fault TableSchema := do
  let some members := value.members? | throw .notMapping
  let columns ← readColumns (Value.lookup? members "columns")
  let key ← readKey (Value.lookup? members "key")
  let types ← (← readPart members .types).mapM fun (column, value) =>
    return (column, ← readType columns column value)
  let computed ← (← readPart members .computed).mapM fun (column, value) =>
    readComputed columns column value
  let aggregates ← (← readPart members .aggregates).mapM fun (name, value) =>
    readAggregate name value
  let emptyCells ← readEmptyCells (Value.lookup? members "empty_cells")
  return { name, columns, key, types, computed, aggregates, emptyCells }

/-- The declarations of all tables. -/
def ofMembers (members : List (Value × Value)) : Except Schema.Fault (List TableSchema) :=
  members.mapM fun (key, value) =>
    match nameOf? key with
    | none => .error .tableNotNamed
    | some name => (ofValue name value).mapError (.table name)

end TableSchema

namespace Schema

/-- The version that documents have to ask for. -/
def supportedVersion : String := "1.0"

/-- The version and the tables of a front section. -/
def ofValue (root : Value) : Except Fault (String × List TableSchema) := do
  let some members := root.members? | throw .rootNotMapping
  let some (.text version) := Value.lookup? members "mdxtab" | throw .versionNotText
  if version ≠ supportedVersion then throw (.unsupportedVersion version)
  let some tables := (Value.lookup? members "tables").bind Value.members? | throw .tablesNotMapping
  return (version, ← TableSchema.ofMembers tables)

variable [Yaml.Loader]

/-- The schema of a front section that closes at line `frontEnd`. -/
def ofFront (d : Document) (frontEnd : Nat) : Except Diagnostic Schema :=
  let lines := d.frontLines frontEnd
  let places := EntryMap.ofLines 1 lines
  let read : Except Fault (String × List TableSchema) := do
    let root ← (Yaml.Loader.load (Text.unlines lines)).mapError .yaml
    ofValue root
  match read with
  | .error fault => .error (fault.toDiagnostic places)
  | .ok (version, tables) => .ok { version, tables, frontEnd, places }

/-- The schema of a document. -/
def ofDocument (d : Document) : Except Diagnostic Schema :=
  if d.firstLine ≠ Document.delimiter then .error ((Fault.notOpened d.firstLine).toDiagnostic {})
  else
    match d.frontEnd? with
    | none => .error (Fault.notClosed.toDiagnostic {})
    | some frontEnd => ofFront d frontEnd

end Schema

end TableDoc
