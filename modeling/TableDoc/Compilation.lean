import TableDoc.Compilation.Plan
import TableDoc.Compilation.Rows
import TableDoc.Interpolation
import TableDoc.Schema.Declaration
import TableDoc.Store.Aggregate

/-!
# Compiling a document

`compile` reads the schema and the tables of a document, pairs them, reads rows and formulas table
by table, computes all rows, then all aggregates, and puts the values into the text. The first
failure on this way is the result.
-/

namespace TableDoc

namespace Compilation

/-- A table that is ready to be computed. -/
structure Prepared where
  input : InputTable
  aggregates : List AggregatePlan

/-- Reads the rows and formulas of a declared table. -/
def prepare [Cell.DateReader] (s : Schema) (p : Pair) : Except Diagnostic Prepared := do
  checkHeader s p
  let rows ← inputRows p
  let computed ← planComputed s p.declared
  let aggregates ← planAggregates s p.declared
  return ⟨⟨p.declared.name, p.declared.allColumns, computed, rows⟩, aggregates⟩

/-- The aggregates of a table, added to those that are there. -/
def evaluateAggregates (s : Schema) (store : Store) (table : String) (aggregates : Row)
    (grouped : List GroupedAggregate) : List AggregatePlan →
    ExceptT Diagnostic (StateM Store.Progress) (Row × List GroupedAggregate)
  | [] => return (aggregates, grouped)
  | plan :: plans => do
    let failure (error : Formula.Error) := aggregateFailure s table plan.name error.toDiagnostic
    match plan.groupBy with
    | none =>
      let value ← (store.aggregate table plan.formula).adapt failure
      evaluateAggregates s store table (aggregates.insert plan.name value) grouped plans
    | some column =>
      let groups ← (store.aggregateGroups table column plan.formula).adapt failure
      evaluateAggregates s store table aggregates (grouped ++ [⟨plan.name, groups⟩]) plans

/-- A table with its aggregates, once all rows are computed. -/
def tableResult (s : Schema) (store : Store) (p : Prepared) :
    ExceptT Diagnostic (StateM Store.Progress) TableResult := do
  let name := p.input.name
  let (aggregates, grouped) ← evaluateAggregates s store name ∅ [] p.aggregates
  return ⟨name, store.rows (← get) name, aggregates, grouped⟩

/-- All rows and aggregates. -/
def evaluate (s : Schema) (prepared : List Prepared) : Except Diagnostic (List TableResult) :=
  let store : Store := ⟨prepared.map Prepared.input⟩
  let run : ExceptT Diagnostic (StateM Store.Progress) (List TableResult) := do
    store.materializeAll
    prepared.mapM (tableResult s store)
  (run.run store.initial).1

end Compilation

open Compilation

variable [Cell.DateReader] [Yaml.Loader]

/-- What a document comes to; `withFront` keeps the front section in the text. -/
def compile (d : Document) (withFront : Bool) : Except Diagnostic Result := do
  let schema ← Schema.ofDocument d
  let found ← Markdown.tables d
  let pairs ← pair schema found
  let prepared ← pairs.mapM (prepare schema)
  let tables ← evaluate schema prepared
  let body ← interpolate tables schema.frontEnd (d.bodyLines schema.frontEnd)
  let front := if withFront then d.front schema.frontEnd else []
  return { schema, tables, rendered := .ofList (front ++ body) }

/-- The text of a document with the values of its aggregates in it. -/
def render (d : Document) (withFront : Bool) : Except Diagnostic String :=
  (compile d withFront).map Result.rendered

/-- The failure of a document, if it has one. -/
def validate (d : Document) : List Diagnostic :=
  match compile d true with
  | .ok _ => []
  | .error failure => [failure]

end TableDoc
