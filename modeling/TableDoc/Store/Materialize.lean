import TableDoc.Formula.Evaluation
import TableDoc.Store.Basic

/-!
# Computing rows

A row is computed when it is first needed: its computed columns are inserted one after another, and
a lookup in a formula computes the row that it finds. A row that is needed while it is being
computed makes a cycle. `Store.materialize` computes one row and `Store.materializeAll` every row. A
row whose formula fails keeps the columns that it has, and may be tried again. The progress is kept
in any monad that has it as a state, and changes only where a row is begun and where it is ended.
-/

namespace TableDoc.Store

open Formula (Context Definition Error)

section
variable {m : Type → Type} [Monad m] (lookup : String → Scalar → ExceptT Error m Row)

/-- What the formula of a computed column can reach. -/
def rowContext (row : Row) : Context m where
  resolve := row.get?
  lookup := lookup
  aggregate f _ := throw (.aggregateInRow f.name)

/-- Inserts computed columns until a formula fails. Gives the row, and the column and error of the
failure. -/
def compute : List Definition → Row → m (Row × Option (String × Error))
  | [], row => return (row, none)
  | d :: ds, row => do
    match ← (d.formula.evaluate (rowContext lookup row)).run with
    | .ok value => compute ds (row.insert d.name value)
    | .error error => return (row, some (d.name, error))

end

variable (s : Store)

/-- The error of a lookup that comes back to a row that is being computed: the labels of the path
from that row on. If it were not on the path, they would be those of the whole path. -/
def cycle (path : List RowId) (id : RowId) : Error :=
  let labels := path.reverse.map s.label
  let start := (labels.idxOf? (s.label id)).getD 0
  .lookupCycle (labels.drop start ++ [s.label id])

/-- An error in a column of a row, with the place of the row. -/
def failure (table : InputTable) (row : InputRow) (column : String) (error : Error) : Diagnostic :=
  (((error.toDiagnostic.orTable table.name).orColumn column).orRowKey row.key).orSpan row.span

section
variable {m : Type → Type} [Monad m] [MonadStateOf Progress m]

/-- The row of a table with a key, once `materialize` has computed it. -/
def lookupBy (materialize : RowId → ExceptT Diagnostic m Unit) (table : String) (key : Scalar) :
    ExceptT Error m Row := do
  let id ← s.find table key
  (materialize id).adapt .inner
  return (← getThe Progress).row id

/-- Computes a row, unless it is done. At most `depth` more rows are begun while others are being
computed; there are no more rows than that if `depth` starts as the size of the store. -/
def materialize (depth : Nat) (id : RowId) : ExceptT Diagnostic m Unit := do
  let some (table, input) := s.row? id | return
  let progress ← getThe Progress
  match progress.slot? id with
  | none | some (.done _) => return
  | some .visiting => throw (s.cycle progress.path id).toDiagnostic
  | some (.pending row) =>
    match depth with
    | 0 => throw (s.cycle progress.path id).toDiagnostic
    | depth + 1 => do
      modifyThe Progress (·.enter id)
      let (row, failed) ← ExceptT.lift <|
        compute (s.lookupBy (materialize depth)) table.computed row
      match failed with
      | none => modifyThe Progress (·.leave id (.done row))
      | some (column, error) => do
        modifyThe Progress (·.leave id (.pending row))
        throw (failure table input column error)

/-- Computes every row, table by table. -/
def materializeAll : ExceptT Diagnostic m Unit := s.ids.forM (s.materialize s.size)

/-- The row of a table with a key, computed if need be. -/
def lookup (table : String) (key : Scalar) : ExceptT Error m Row :=
  s.lookupBy (s.materialize s.size) table key

end

end TableDoc.Store
