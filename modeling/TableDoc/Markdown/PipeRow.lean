import TableDoc.Span
import TableDoc.Text.Blank

/-!
# Rows of pipe tables

A pipe row is a line that, blanks at the ends apart, starts and ends with a pipe; its cells are what
stands between neighbouring pipes, blanks included. `splitCells` finds the cells and where they
stand.
-/

namespace TableDoc.Markdown

/-- What stands between two pipes: the characters of the line from `start` up to `stop`. -/
structure Cell where
  raw : List Char
  start : Nat
  stop : Nat
  deriving DecidableEq, Repr

namespace Cell

/-- The text of the cell without blanks at the ends. -/
def text (c : Cell) : List Char := Text.trim c.raw

/-- Where the text stands, or the whole cell if it has none. -/
def textSpan (c : Cell) : Nat × Nat :=
  if c.text = [] then (c.start, c.stop)
  else
    let start := c.start + (c.raw.takeWhile Text.isBlank).length
    (start, start + c.text.length)

end Cell

/-- A text without blanks at the ends starts and ends with different pipes. -/
def isPipeRow (text : List Char) : Bool :=
  2 ≤ text.length && text.head? = some '|' && text.getLast? = some '|'

/-- The text between the first and the last character. -/
def inner (text : List Char) : List Char := text.tail.dropLast

/-- A cell of a separator: three or more dashes, with or without a colon on either side. -/
def isRule (cell : List Char) : Bool :=
  let afterColon := if cell.head? = some ':' then cell.tail else cell
  let dashes := if afterColon.getLast? = some ':' then afterColon.dropLast else afterColon
  3 ≤ dashes.length && dashes.all (· = '-')

/-- A row of nothing but separator cells. -/
def isSeparator (text : List Char) : Bool :=
  isPipeRow text && ((inner text).splitOn '|').all fun cell => isRule (Text.trim cell)

/-- Cells one after another, the first at `start`, with a pipe after each. -/
def placeCells (start : Nat) : List (List Char) → List Cell
  | [] => []
  | raw :: raws =>
    ⟨raw, start, start + raw.length⟩ :: placeCells (start + raw.length + 1) raws

/-- The cells of a pipe row. -/
def splitCells (line : List Char) : List Cell :=
  placeCells ((line.takeWhile Text.isBlank).length + 1) ((inner (Text.trim line)).splitOn '|')

end TableDoc.Markdown
