import TableDoc.Interpolation.Reference
import TableDoc.Markdown.Fence

/-!
# The segments of a line

A line is cut, from the left, into references between double braces and the text around them. A run
of backticks opens a code span if the same line has a later run of exactly as many; then nothing up
to the end of that run is a reference. Braces around anything but a reference are text. The texts of
the segments make up the line (`flatMap_source_segments`).
-/

namespace TableDoc

open Markdown (Fence.ticks)

/-- A piece of a line. -/
inductive Segment where
  | literal (text : List Char)
  /-- A reference, with its text between and with the braces. -/
  | reference (source : List Char) (target : Reference)

namespace Segment

/-- The text of a segment in its line. -/
def source : Segment → List Char
  | literal text => text
  | reference source _ => source

/-- The number of characters before the first run of exactly `n` backticks. -/
def closing? (n : Nat) (cs : List Char) : Option Nat :=
  let runs := cs.splitBy fun a b => (a == '\x60') == (b == '\x60')
  let before := runs.takeWhile (· ≠ List.replicate n '\x60')
  if before.length < runs.length then some before.flatten.length else none

/-- The length of the code span that a text starts with, or of the run of backticks if nothing
closes it; zero if there is no backtick. -/
def codeLength (cs : List Char) : Nat :=
  let n := Fence.ticks cs
  match closing? n (cs.drop n) with
  | some offset => n + offset + n
  | none => n

/-- What stands before the first two closing braces. -/
def beforeClose? : List Char → Option (List Char)
  | '\x7d' :: '\x7d' :: _ => some []
  | c :: cs => (beforeClose? cs).map (c :: ·)
  | [] => none

/-- The reference that a text starts with, and the length of its source. -/
def referenceAt? : List Char → Option (Reference × Nat)
  | '\x7b' :: '\x7b' :: cs => do
    let inner ← beforeClose? cs
    let target ← Reference.ofText? inner
    return (target, inner.length + 4)
  | _ => none

end Segment

/-- The segments of a line. -/
def segments : List Char → List Segment
  | [] => []
  | c :: cs =>
    if c = '\x60' then
      let n := Segment.codeLength (c :: cs) - 1
      .literal (c :: cs.take n) :: segments (cs.drop n)
    else
      match Segment.referenceAt? (c :: cs) with
      | some (target, n) =>
        .reference (c :: cs.take (n - 1)) target :: segments (cs.drop (n - 1))
      | none => .literal [c] :: segments cs
termination_by cs => cs.length
decreasing_by all_goals simp only [List.length_cons, List.length_drop]; omega

theorem flatMap_source_segments (cs : List Char) : (segments cs).flatMap Segment.source = cs := by
  fun_induction segments cs <;> simp_all [Segment.source]

end TableDoc
