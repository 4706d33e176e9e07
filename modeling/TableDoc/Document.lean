import TableDoc.Text.Lines

/-!
# Documents

A document is a list of lines. If its first line is `---`, it opens with a section that lasts up to
the next line `---`; the rest, from the end of that line on, is the body.
-/

namespace TableDoc

/-- A document; line `i` of the list is line `i` of every diagnostic. -/
structure Document where
  lines : List (List Char)

namespace Document

/-- The document with this text. -/
def ofText (text : String) : Document := ⟨Text.lines (Text.normalize text.toList)⟩

/-- The line that opens and closes the front section. -/
def delimiter : List Char := ['-', '-', '-']

/-- The first line, empty if there is none. -/
def firstLine (d : Document) : List Char := d.lines.headD []

/-- The number of the line that closes the front section. -/
def frontEnd? (d : Document) : Option Nat :=
  match d.lines with
  | [] => none
  | first :: rest => if first = delimiter then (rest.idxOf? delimiter).map (· + 1) else none

/-- The lines inside a front section that closes at line `stop`. -/
def frontLines (d : Document) (stop : Nat) : List (List Char) := (d.lines.take stop).drop 1

/-- The text of a front section that closes at line `stop`, with both its delimiters. -/
def front (d : Document) (stop : Nat) : List Char := Text.unlines (d.lines.take (stop + 1))

/-- The lines of the body after a front section that closes at line `stop`. The first is what
follows the closing delimiter on its line: nothing. -/
def bodyLines (d : Document) (stop : Nat) : List (List Char) := [] :: d.lines.drop (stop + 1)

end Document

end TableDoc
