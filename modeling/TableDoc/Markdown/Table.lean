import TableDoc.Diagnostic
import TableDoc.Document
import TableDoc.Markdown.Fence
import TableDoc.Markdown.PipeRow

/-!
# Tables in a document

A table is a pipe row right above a separator, and every pipe row right below. The last heading
before it, unless another table has taken it, names the table; otherwise it is numbered. Fenced code
is passed over, but once a table has begun its rows are looked for without regard to fences.
-/

namespace TableDoc.Markdown

/-- A row of data. -/
structure DataRow where
  cells : List Cell
  line : Nat
  /-- The length of the line. -/
  length : Nat
  deriving DecidableEq, Repr

namespace DataRow

/-- The whole line. -/
def span (r : DataRow) : Span := .within r.line 0 r.length

/-- Where a cell stands, or the whole line if the row has no such cell. -/
def cellSpan (r : DataRow) (i : Nat) : Span :=
  match r.cells[i]? with
  | some c => .within r.line c.textSpan.1 c.textSpan.2
  | none => r.span

end DataRow

/-- A heading: its text and place. -/
structure Heading where
  name : String
  span : Span
  deriving DecidableEq, Repr

/-- A table as it stands in the document. -/
structure Table where
  name : String
  /-- Where the heading that names the table stands. -/
  heading : Option Span
  /-- The number of the header's line. -/
  headerLine : Nat
  /-- The whole header line. -/
  headerSpan : Span
  headers : List Cell
  rows : List DataRow
  deriving DecidableEq, Repr

/-- The place of a table: its heading, or its header if it has none. -/
def Table.span (t : Table) : Span := t.heading.getD t.headerSpan

/-- The text of a heading line, given the line without blanks at the ends: one or more `#`, a blank,
and the text. -/
def headingText? (text : List Char) : Option (List Char) :=
  match text.dropWhile (· = '#') with
  | [] => none
  | c :: cs =>
    if text.head? = some '#' ∧ Text.isBlank c then some (Text.trim cs) else none

/-- What is wrong with a row of data. -/
inductive RowFault where
  | tab
  | count (actual expected : Nat)
  deriving DecidableEq, Repr

namespace RowFault

/-- The text of a fault. -/
def message : RowFault → String
  | tab => "Tab characters are not allowed in data cells"
  | count actual expected => s!"Row has {actual} columns but the header has {expected}"

/-- The code of a fault. -/
def code : RowFault → Diagnostic.Code
  | tab => .tableTab
  | count .. => .tableColumnCount

end RowFault

/-- The data of a line, in a table of `width` columns. -/
def readRow (width line : Nat) (text : List Char) : Except RowFault DataRow :=
  let cells := splitCells text
  if cells.any (·.raw.contains '\t') then .error .tab
  else if cells.length ≠ width then .error (.count cells.length width)
  else .ok ⟨cells, line, text.length⟩

/-- The data of the lines of a table, the first of which is line `line`. -/
def readRows (table : String) (width line : Nat) :
    List (List Char) → Except Diagnostic (List DataRow)
  | [] => .ok []
  | text :: texts =>
    match readRow width line text with
    | .error fault =>
      .error
        { code := fault.code, message := fault.message, table := table,
          span := Span.ofLine line text }
    | .ok row => do
      let rows ← readRows table width (line + 1) texts
      return row :: rows

/-- The lines at the head of a text that are pipe rows. -/
def pipeRows (lines : List (List Char)) : List (List Char) :=
  lines.takeWhile fun l => isPipeRow (Text.trim l)

/-- A table starts with a line and the lines after it. -/
def startsTable (line : List Char) : List (List Char) → Bool
  | [] => false
  | next :: _ => isPipeRow (Text.trim line) && isSeparator (Text.trim next)

/-- The tables of lines, the first of which is line `n`, given the open fence, the heading that the
next table takes, and the number of tables so far. -/
def tablesFrom (fence : Fence) (heading : Option Heading) (count n : Nat) :
    List (List Char) → Except Diagnostic (List Table)
  | [] => .ok []
  | line :: rest =>
    let (fenced, fence) := fence.feed line
    if fenced then tablesFrom fence heading count (n + 1) rest
    else match headingText? (Text.trim line) with
      | some name =>
        tablesFrom fence (some ⟨.ofList name, Span.ofLine n line⟩) count (n + 1) rest
      | none =>
        if startsTable line rest then do
          let name := match heading with
            | some h => h.name
            | none => s!"table{count + 1}"
          let headers := splitCells line
          let texts := pipeRows rest.tail
          let rows ← readRows name headers.length (n + 2) texts
          let tables ← tablesFrom fence none (count + 1) (n + 2 + texts.length)
            (rest.tail.drop texts.length)
          return ⟨name, heading.map Heading.span, n, Span.ofLine n line, headers, rows⟩ :: tables
        else tablesFrom fence heading count (n + 1) rest
termination_by lines => lines.length
decreasing_by all_goals simp only [List.length_cons, List.length_drop, List.length_tail]; omega

/-- The tables of a document, after its front section. -/
def tables (d : Document) : Except Diagnostic (List Table) :=
  let first := match d.frontEnd? with
    | some stop => stop + 1
    | none => 0
  tablesFrom none none 0 first (d.lines.drop first)

end TableDoc.Markdown
