import TableDoc.Json

/-!
# Positions in a document

Lines and characters are counted from zero; a line's characters are Unicode scalar values.
-/

namespace TableDoc

/-- A place in a document. -/
structure Position where
  line : Nat
  character : Nat
  deriving DecidableEq, Repr

/-- A stretch of a document from `start` up to but without `stop`. -/
structure Span where
  start : Position
  stop : Position
  deriving DecidableEq, Repr

namespace Span

/-- A stretch of one line. -/
def within (line start stop : Nat) : Span := ⟨⟨line, start⟩, ⟨line, stop⟩⟩

/-- A whole line, given its text. -/
def ofLine (line : Nat) (text : List Char) : Span := within line 0 text.length

/-- The span in JSON. -/
def toJson (s : Span) : Json :=
  let position (p : Position) : Json :=
    .object [("line", .natural p.line), ("character", .natural p.character)]
  .object [("start", position s.start), ("end", position s.stop)]

end Span

end TableDoc
