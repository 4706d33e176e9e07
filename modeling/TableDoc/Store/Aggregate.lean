import TableDoc.Store.Materialize

/-!
# Aggregates of tables

`Store.aggregate` evaluates a formula for a whole table, and `Store.aggregateGroups` for each group
of rows with the same text in a column. An aggregate function in the formula folds the rows at hand;
lookups still reach all tables.
-/

namespace TableDoc.Store

open Formula (Context Expr Error)

/-- Items by their keys, the keys in the order in which they first appear. -/
def groups (items : List (String × α)) : List (String × List α) :=
  (items.map Prod.fst).eraseDups.map fun key => (key, (items.filter (·.1 = key)).map Prod.snd)

/-- The value of a column, null if the row does not have it. -/
def valueOf (row : Row) (column : String) : Scalar := (row.get? column).getD .null

variable (s : Store)

/-- What the formula of an aggregate can reach, given the rows of a table that are folded. -/
def aggregateContext (columns : List String) (rows : List RowId) : Context (StateM Progress) where
  resolve _ := none
  lookup := s.lookup
  aggregate f column := do
    if column ∉ columns then throw (.unknownReference column)
    let progress ← get
    f.apply (rows.map fun id => valueOf (progress.row id) column)

/-- The number of the table with a name, its columns and its rows. -/
def foldable (name : String) : Except Error (List String × List RowId) :=
  match s.tableIndex? name with
  | none => .error (.lookup (.unknownTable name))
  | some t =>
    match s.tables[t]? with
    | none => .error (.lookup (.unknownTable name))
    | some table => .ok (table.columns, (List.range table.rows.length).map (⟨t, ·⟩))

/-- The value of a formula for a whole table. -/
def aggregate (name : String) (formula : Expr) : ExceptT Error (StateM Progress) Scalar := do
  let (columns, rows) ← s.foldable name
  formula.evaluate (s.aggregateContext columns rows)

/-- The value of a formula for each group of the rows of a table that have the same text in a
column. -/
def aggregateGroups (name column : String) (formula : Expr) :
    ExceptT Error (StateM Progress) (List (String × Scalar)) := do
  let (columns, rows) ← s.foldable name
  let progress ← get
  let keyed := rows.map fun id => ((valueOf (progress.row id) column).toText, id)
  (groups keyed).mapM fun (key, members) => do
    return (key, ← formula.evaluate (s.aggregateContext columns members))

end TableDoc.Store
