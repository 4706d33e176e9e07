import TableDoc.Compilation.Pairing
import TableDoc.Store.Basic

/-!
# The rows of a declared table

`checkHeader` compares the headers of a table with the declared columns, and `inputRows` reads its
rows: each cell becomes a value of its column, and the text of the key must be there and differ from
those of the rows before.
-/

namespace TableDoc.Compilation

/-- Fails at the first header that is not the column declared for its place. -/
def checkColumns (p : Pair) : List Markdown.Cell → List String → Except Diagnostic Unit
  | [], [] => .ok ()
  | h :: hs, c :: cs =>
    if String.ofList h.text = c then checkColumns p hs cs
    else .error <| (Fault.wrongHeader c (.ofList h.text)).toDiagnostic p.declared.name
      (Span.within p.found.headerLine h.start h.stop)
  | h :: _, [] =>
    .error <| (Fault.extraHeader (.ofList h.text)).toDiagnostic p.declared.name
      (Span.within p.found.headerLine h.start h.stop)
  | [], c :: _ =>
    .error <| (Fault.missingHeader c).toDiagnostic p.declared.name p.found.headerSpan

/-- The headers are the declared columns, and the key is one of them. -/
def checkHeader (s : Schema) (p : Pair) : Except Diagnostic Unit := do
  checkColumns p p.found.headers p.declared.columns
  if ! p.declared.hasColumn p.declared.key then
    throw <| (Fault.keyNotColumn p.declared.key).toDiagnostic p.declared.name
      (s.tableSpan? p.declared.name)

variable [Cell.DateReader]

/-- The value of the cell in the column with number `i`; a cell that is not there is empty. -/
def cellValue (t : TableSchema) (r : Markdown.DataRow) (column : String) (i : Nat) :
    Except Diagnostic Scalar :=
  let raw := match r.cells[i]? with
    | some cell => cell.raw
    | none => []
  (Cell.coerce raw (t.columnType? column) t.emptyCells).mapError fun fault =>
    { fault.toDiagnostic with table := t.name, column := column, span := r.cellSpan i }

/-- The values of a row under the declared columns. -/
def rowValues (t : TableSchema) (r : Markdown.DataRow) : Except Diagnostic Row := do
  let cells ← t.columns.zipIdx.mapM fun (column, i) => return (column, ← cellValue t r column i)
  return .ofList cells

/-- The text of a row's key; null and the empty text are no keys. -/
def keyText? (t : TableSchema) (row : Row) : Option String :=
  match row.get? t.key with
  | none | some .null => none
  | some value => if value.toText = "" then none else some value.toText

/-- The rows of a table, given the keys that were seen before. -/
def readRows (t : TableSchema) (seen : List String) :
    List Markdown.DataRow → Except Diagnostic (List InputRow)
  | [] => .ok []
  | r :: rs => do
    let cells ← rowValues t r
    match keyText? t cells with
    | none => throw ((Fault.missingKey t.key).toDiagnostic t.name r.span)
    | some key =>
      if key ∈ seen then throw ((Fault.repeatedKey key).toDiagnostic t.name r.span)
      else
        let rows ← readRows t (key :: seen) rs
        return ⟨key, cells, r.span⟩ :: rows

/-- The rows of a declared table. -/
def inputRows (p : Pair) : Except Diagnostic (List InputRow) := readRows p.declared [] p.found.rows

end TableDoc.Compilation
