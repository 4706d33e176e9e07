/-!
# Lines

A line break is a line feed, a carriage return, or both in this order. `normalize` turns each into a
line feed; `lines` cuts a text at its line feeds, and `unlines` is its inverse.
-/

namespace TableDoc.Text

/-- Every line break as a line feed. -/
def normalize : List Char → List Char
  | '\r' :: '\n' :: cs => '\n' :: normalize cs
  | '\r' :: cs => '\n' :: normalize cs
  | c :: cs => c :: normalize cs
  | [] => []

/-- The lines of a text; there is always one, if only an empty one. -/
def lines (cs : List Char) : List (List Char) := cs.splitOn '\n'

/-- Lines joined by line feeds. -/
def unlines (ls : List (List Char)) : List Char := ['\n'].intercalate ls

@[simp] theorem unlines_lines (cs : List Char) : unlines (lines cs) = cs :=
  List.intercalate_splitOn '\n'

theorem lines_ne_nil (cs : List Char) : lines cs ≠ [] := List.splitOnP_ne_nil _ _

end TableDoc.Text
