/-!
# Places in YAML text

A `Cursor` is the text that is left and the place where it starts. Places count bytes from the
start, lines, and characters of the line. Lines end at a line feed, a next line, or a line or
paragraph separator; carriage returns do not occur.
-/

namespace TableDoc.Yaml

/-- A place in a text. -/
structure Mark where
  /-- The number of bytes before it. -/
  offset : Nat := 0
  line : Nat := 0
  column : Nat := 0
  deriving DecidableEq, Repr, Inhabited

/-- The characters that end a line. -/
def isBreak (c : Char) : Bool := c = '\n' || c = '\u0085' || c = '\u2028' || c = '\u2029'

/-- Spaces and tabs. -/
def isBlank (c : Char) : Bool := c = ' ' || c = '\t'

/-- A character that no word goes on with. -/
def isGap (c : Char) : Bool := isBlank c || isBreak c

/-- A line break as it is read: separators stay, all else is a line feed. -/
def readBreak (c : Char) : Char := if c = '\u0085' then '\n' else c

/-- The characters of names and handles. -/
def isNameChar (c : Char) : Bool := c.isAlphanum || c = '_' || c = '-'

/-- A hexadecimal digit. -/
def isHex (c : Char) : Bool := c.isDigit || ('a' ≤ c && c ≤ 'f') || ('A' ≤ c && c ≤ 'F')

/-- The value of a hexadecimal digit. -/
def hexValue (c : Char) : Nat :=
  if c.isDigit then c.toNat - 48 else if c ≤ 'F' then c.toNat - 55 else c.toNat - 87

/-- The number that hexadecimal digits spell. -/
def ofHex (ds : List Char) : Nat := ds.foldl (fun n c => 16 * n + hexValue c) 0

/-- The place after a character. -/
def Mark.step (m : Mark) (c : Char) : Mark :=
  let offset := m.offset + c.utf8Size
  if isBreak c then ⟨offset, m.line + 1, 0⟩ else ⟨offset, m.line, m.column + 1⟩

/-- The text that is left, and its place. -/
structure Cursor where
  mark : Mark
  rest : List Char

namespace Cursor

/-- Past a number of characters. -/
def advance (c : Cursor) (n : Nat) : Cursor :=
  ⟨(c.rest.take n).foldl Mark.step c.mark, c.rest.drop n⟩

/-- The run of characters of a class, and past it. -/
def span (c : Cursor) (p : Char → Bool) : List Char × Cursor :=
  let run := c.rest.takeWhile p
  (run, c.advance run.length)

/-- Past a run of characters of a class. -/
def skipWhile (c : Cursor) (p : Char → Bool) : Cursor := (c.span p).2

/-- The character at hand is `x`. -/
def at_ (c : Cursor) (x : Char) : Bool := c.rest.head? = some x

/-- The text ends, or a gap follows, after `n` more characters. -/
def gapAfter (c : Cursor) (n : Nat) : Bool := (c.rest.drop n).head?.all isGap

/-- The text, or its line, ends here. -/
def atLineEnd (c : Cursor) : Bool := c.rest.head?.all isBreak

/-- Past blanks and a comment. -/
def skipComment (c : Cursor) : Cursor :=
  let c := c.skipWhile isBlank
  if c.at_ '#' then c.skipWhile (! isBreak ·) else c

end Cursor

/-- A text starts with one of the lines that begin and end documents. -/
def isDocumentMarker (cs : List Char) : Bool :=
  (cs.take 3 = ['-', '-', '-'] || cs.take 3 = ['.', '.', '.']) && (cs.drop 3).head?.all isGap

end TableDoc.Yaml
