import TableDoc.Interpolation.Segment
import TableDoc.Text.Lines

/-!
# Values in the text

`interpolate` puts the values of aggregates into the lines of a body, in place of the references to
them. Fenced code stays as it is. The first reference without a value is a failure.
-/

namespace TableDoc

variable (tables : List TableResult)

/-- The text of segments of line `n`, of which the first starts at character `start`. -/
def interpolateSegments (n start : Nat) : List Segment → Except Diagnostic (List Char)
  | [] => .ok []
  | .literal text :: rest => do
    let after ← interpolateSegments n (start + text.length) rest
    return text ++ after
  | .reference source target :: rest => do
    let stop := start + source.length
    let value ← (target.resolve tables).mapError fun fault =>
      fault.toDiagnostic target (.within n start stop)
    let after ← interpolateSegments n stop rest
    return value.toText.toList ++ after

/-- The lines with the values in them; the first is line `n`. -/
def interpolateLines (fence : Markdown.Fence) (n : Nat) :
    List (List Char) → Except Diagnostic (List (List Char))
  | [] => .ok []
  | line :: lines => do
    let (fenced, fence) := fence.feed line
    let first ← if fenced then .ok line else interpolateSegments tables n 0 (segments line)
    let rest ← interpolateLines fence (n + 1) lines
    return first :: rest

/-- The body with the values in it; its first line is line `n` of the document. -/
def interpolate (n : Nat) (body : List (List Char)) : Except Diagnostic (List Char) := do
  return Text.unlines (← interpolateLines tables none n body)

end TableDoc
