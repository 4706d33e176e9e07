import TableDoc.Compilation.Fault
import TableDoc.Formula.Dependency
import TableDoc.Formula.Parser
import TableDoc.Schema.Basic

/-!
# The formulas of a declared table

`planComputed` reads the formulas of the computed columns and puts them into an order in which they
can be computed; `planAggregates` reads those of the aggregates.
-/

namespace TableDoc.Compilation

open Formula (Definition Dependencies Error Expr)

/-- Reads a formula, in which every aggregate must have one column. -/
def readFormula (source : String) : Except Error Expr := do
  let formula ← Formula.parse source
  formula.checkAggregates
  return formula

/-- An error in a computed column, placed at its entry. -/
def computedFailure (s : Schema) (table column : String) (error : Error) : Diagnostic :=
  ((error.toDiagnostic.orTable table).orColumn column).orSpan (s.entrySpan? table .computed column)

/-- Takes out the first definition of a name. The last definition fills its place. -/
def takeOut? (name : String) (definitions : List Definition) :
    Option (Definition × List Definition) := do
  let i ← definitions.findIdx? (·.name = name)
  let taken ← definitions[i]?
  let last ← definitions.getLast?
  return (taken, (definitions.set i last).dropLast)

/-- Definitions in the order of their names; names without a definition are passed over. -/
def arrange : List String → List Definition → List Definition
  | [], _ => []
  | name :: names, definitions =>
    match takeOut? name definitions with
    | some (taken, others) => taken :: arrange names others
    | none => arrange names definitions

/-- The computed columns of a table in an order in which they can be computed. A cycle is placed at
the column that it starts with. -/
def planComputed (s : Schema) (t : TableSchema) : Except Diagnostic (List Definition) := do
  let definitions ← t.computed.mapM fun c =>
    ((readFormula c.expression).map (Definition.mk c.name)).mapError
      (computedFailure s t.name c.name)
  match Dependencies.build definitions with
  | .ok dependencies => return arrange dependencies.order definitions
  | .error (.cycle (column :: path)) =>
    throw (computedFailure s t.name column (.cycle (column :: path)))
  | .error error => throw (error.toDiagnostic.orTable t.name)

/-- An aggregate, ready to be evaluated. -/
structure AggregatePlan where
  name : String
  formula : Expr
  groupBy : Option String

/-- A failure of an aggregate, placed at its entry. -/
def aggregateFailure (s : Schema) (table aggregate : String) (d : Diagnostic) : Diagnostic :=
  ((d.orTable table).orAggregate aggregate).orSpan (s.entrySpan? table .aggregates aggregate)

/-- An aggregate of a table; the column that makes its groups must be one of the table. -/
def planAggregate (s : Schema) (t : TableSchema) (a : AggregateDefinition) :
    Except Diagnostic AggregatePlan := do
  let formula ← (readFormula a.expression).mapError fun error =>
    aggregateFailure s t.name a.name error.toDiagnostic
  match a.groupBy with
  | none => return ⟨a.name, formula, none⟩
  | some column =>
    if t.hasColumn column || t.hasComputed column then return ⟨a.name, formula, some column⟩
    else throw <| aggregateFailure s t.name a.name <|
      (Fault.unknownGroupColumn a.name column).toDiagnostic t.name none

/-- The aggregates of a table. -/
def planAggregates (s : Schema) (t : TableSchema) : Except Diagnostic (List AggregatePlan) :=
  t.aggregates.mapM (planAggregate s t)

end TableDoc.Compilation
