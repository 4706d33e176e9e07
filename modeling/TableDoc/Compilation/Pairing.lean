import TableDoc.Compilation.Fault
import TableDoc.Markdown.Table
import TableDoc.Schema.Basic

/-!
# Declared tables and the tables of the document

`pair` gives each declared table the table of the document that has its name. It fails if the
document has a table that is not declared, two tables of one name, or no table of a declared name.
-/

namespace TableDoc.Compilation

/-- A declared table and the table of the document that holds its data. -/
structure Pair where
  declared : TableSchema
  found : Markdown.Table

/-- Fails at the first table that is not declared or has a name that was seen before. -/
def checkNames (s : Schema) (seen : List String) : List Markdown.Table → Except Diagnostic Unit
  | [] => .ok ()
  | t :: ts =>
    if (s.table? t.name).isNone then .error (Fault.undeclared.toDiagnostic t.name t.span)
    else if t.name ∈ seen then .error (Fault.repeated.toDiagnostic t.name t.span)
    else checkNames s (t.name :: seen) ts

/-- Finds the table for each declaration; a table of the document serves one declaration only. -/
def pairAll (s : Schema) (found : List Markdown.Table) :
    List TableSchema → Except Diagnostic (List Pair)
  | [] => .ok []
  | t :: ts =>
    match found.find? (·.name = t.name) with
    | none => .error (Fault.missing.toDiagnostic t.name (s.tableSpan? t.name))
    | some f => do
      let pairs ← pairAll s (found.filter (·.name ≠ t.name)) ts
      return ⟨t, f⟩ :: pairs

/-- The declared tables in order, each with its table of the document. -/
def pair (s : Schema) (found : List Markdown.Table) : Except Diagnostic (List Pair) := do
  checkNames s [] found
  pairAll s found s.tables

end TableDoc.Compilation
