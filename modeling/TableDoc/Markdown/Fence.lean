import TableDoc.Text.Blank

/-!
# Fenced code

A line that starts with three or more backticks opens a fence; a line of at least as many backticks
and nothing else closes it. `Fence.feed` goes through a text line by line.
-/

namespace TableDoc.Markdown

/-- The fence that is open, by its number of backticks. -/
abbrev Fence := Option Nat

namespace Fence

/-- The number of backticks that a text starts with. -/
def ticks (cs : List Char) : Nat := (cs.takeWhile (· = '\x60')).length

/-- Whether a line belongs to a fence, its delimiters included, and the fence after it. -/
def feed (fence : Fence) (line : List Char) : Bool × Fence :=
  let text := Text.trim line
  match fence with
  | some opening =>
    (true, if opening ≤ ticks text ∧ ticks text = text.length then none else fence)
  | none => if 3 ≤ ticks text then (true, some (ticks text)) else (false, none)

end Fence

end TableDoc.Markdown
