import Mathlib
import TableDoc.Proofs.Markdown.Table
import TableDoc.Proofs.Text

/-!
# Where cells stand

A pipe row is divided by its pipes (`Divides`): each cell is what stands in the line between two
neighbouring pipes, its start and its stop are counted in characters of the whole line, and its text
is what is left without the blanks at the ends (`divides_splitCells`). So are the headers and the
rows of all tables of a document (`divided_of_tables`).
-/

namespace TableDoc.Markdown

/-- The text of a cell stands in the line from `start` up to `stop`, with nothing but blanks around
it in the cell. -/
structure Cell.TextAt (line : List Char) (c : Cell) (start stop : Nat) : Prop where
  start_le : c.start ≤ start
  le : start ≤ stop
  stop_le : stop ≤ c.stop
  before : Text.Blanks (line.extract c.start start)
  text : line.extract start stop = c.text
  after : Text.Blanks (line.extract stop c.stop)

/-- A cell is what stands in the line from its start up to its stop, between two pipes and without
one inside. -/
structure Cell.StandsIn (cs : List Char) (c : Cell) : Prop where
  raw : cs.extract c.start c.stop = c.raw
  le : c.start ≤ c.stop
  before : ∃ i, c.start = i + 1 ∧ cs[i]? = some '|'
  after : cs[c.stop]? = some '|'
  pipe_notMem : '|' ∉ c.raw
  textSpan : c.text ≠ [] → c.TextAt cs c.textSpan.1 c.textSpan.2

/-- The cells of a line stand one after another, with one pipe between neighbours; with the pipes,
they are the whole line but for the blanks at its ends. -/
structure Divides (line : List Char) (cells : List Cell) : Prop where
  standsIn : ∀ c ∈ cells, c.StandsIn line
  next : cells.IsChain fun c d => d.start = c.stop + 1
  trim_eq : Text.trim line = '|' :: cells.flatMap fun c => c.raw ++ ['|']
  ends : ∃ before after, Text.Blanks before ∧ Text.Blanks after ∧
    line = before ++ Text.trim line ++ after ∧
    cells.head?.map Cell.start = some (before.length + 1) ∧
    cells.getLast?.map (fun c => c.stop + 1) = some (before.length + (Text.trim line).length)

/-- The headers and the rows of a table divide the lines at which they stand, and the rows are as
long as their lines. -/
structure Table.Divided (lines : List (List Char)) (table : Table) : Prop where
  headers : ∃ line, lines[table.headerLine]? = some line ∧ Divides line table.headers
  rows : ∀ row ∈ table.rows,
    ∃ line, lines[row.line]? = some line ∧ Divides line row.cells ∧ row.length = line.length

variable {line before after text : List Char} {raws : List (List Char)} {start : Nat} {c : Cell}

namespace Cell.StandsIn

theorem stop_lt (h : c.StandsIn line) : c.stop < line.length :=
  (List.getElem?_eq_some_iff.1 h.after).1

theorem textSpan_le (h : c.StandsIn line) :
    c.textSpan.1 ≤ c.textSpan.2 ∧ c.textSpan.2 ≤ line.length := by
  have hstop : c.stop ≤ line.length := Nat.le_of_lt h.stop_lt
  by_cases htext : c.text = []
  · rw [Cell.textSpan, if_pos htext]
    exact ⟨h.le, hstop⟩
  · have hat := h.textSpan htext
    exact ⟨hat.le, Nat.le_trans hat.stop_le hstop⟩

end Cell.StandsIn

/-! ## Cells between pipes -/

/-- The line has the cell between two pipes, at its place. -/
inductive Cell.Between (line : List Char) (c : Cell) : Prop
  | mk {before after : List Char} : line = before ++ '|' :: (c.raw ++ '|' :: after) →
    c.start = before.length + 1 → c.stop = c.start + c.raw.length → Between line c

namespace Cell.Between

theorem stop_eq (h : c.Between line) : c.stop = c.start + c.raw.length := by
  obtain ⟨-, -, hstop⟩ := h
  exact hstop

/-- A part of the cell stands in the line behind what comes before it in the cell. -/
theorem extract {left piece right : List Char} (h : c.Between line)
    (hraw : c.raw = left ++ (piece ++ right)) :
    line.extract (c.start + left.length) (c.start + left.length + piece.length) = piece := by
  obtain @⟨before, after, hline, hstart, -⟩ := h
  have hpiece : line = (before ++ '|' :: left) ++ (piece ++ (right ++ '|' :: after)) := by
    rw [hline, hraw]
    simp only [List.append_assoc, List.cons_append]
  refine Text.extract_of_append hpiece ?_ rfl
  rw [hstart, List.length_append, List.length_cons]
  omega

/-- The text of a cell stands where its span says. -/
theorem textAt (h : c.Between line) (htext : c.text ≠ []) :
    c.TextAt line c.textSpan.1 c.textSpan.2 := by
  -- the cell is its text between two runs of blanks, and each of the three stands in the line
  obtain ⟨htrimmed, left, right, hleft, hright, hraw⟩ :=
    Text.trim_eq_iff.1 (Eq.refl (Text.trim c.raw))
  rw [List.append_assoc] at hraw
  have hne : Text.trim c.raw ≠ [] := htext
  have hfirst : ∀ a ∈ (Text.trim c.raw ++ right).head?, Text.isBlank a = false := by
    rw [List.head?_append_of_ne_nil _ hne]
    exact htrimmed.head?
  have hlead : c.raw.takeWhile Text.isBlank = left := by
    rw [hraw]
    exact Text.takeWhile_append hleft hfirst
  have hspan : c.textSpan = (c.start + left.length, c.start + left.length + c.text.length) := by
    rw [Cell.textSpan, if_neg htext, hlead]
  have hlength : c.raw.length = left.length + (c.text.length + right.length) := by
    rw [← List.length_append, ← List.length_append]
    exact congrArg _ hraw
  have hstop : c.stop = c.start + left.length + c.text.length + right.length := by
    rw [h.stop_eq, hlength]
    omega
  have hbefore : line.extract c.start (c.start + left.length) = left := by
    have hleft : c.raw = [] ++ (left ++ (c.text ++ right)) := hraw
    exact h.extract hleft
  have hafter : line.extract (c.start + left.length + c.text.length) c.stop = right := by
    have hright : c.raw = (left ++ c.text) ++ (right ++ []) := by
      rw [List.append_nil, List.append_assoc]
      exact hraw
    have hextract := h.extract hright
    rw [List.length_append, ← Nat.add_assoc] at hextract
    rw [hstop]
    exact hextract
  rw [hspan]
  exact {
    start_le := Nat.le_add_right _ _
    le := Nat.le_add_right _ _
    stop_le := hstop ▸ Nat.le_add_right _ _
    before := by rwa [hbefore]
    text := h.extract hraw
    after := by rwa [hafter] }

/-- A cell without pipes between two pipes is a cell of the line. -/
theorem standsIn (h : c.Between line) (hfree : '|' ∉ c.raw) : c.StandsIn line where
  raw := by
    have hraw : c.raw = [] ++ (c.raw ++ []) := (List.append_nil c.raw).symm
    rw [h.stop_eq]
    exact h.extract hraw
  le := h.stop_eq ▸ Nat.le_add_right _ _
  before := by
    obtain @⟨before, after, hline, hstart, -⟩ := h
    exact ⟨before.length, hstart, Text.getElem?_of_append hline rfl⟩
  after := by
    obtain @⟨before, after, hline, hstart, hstop⟩ := h
    rw [← List.cons_append, ← List.append_assoc] at hline
    refine Text.getElem?_of_append hline ?_
    rw [List.length_append, List.length_cons]
    omega
  pipe_notMem := hfree
  textSpan := h.textAt

end Cell.Between

/-! ## The cells of a line -/

theorem between_placeCells (h : line = before ++ '|' :: (raws.flatMap (· ++ ['|']) ++ after))
    (hstart : start = before.length + 1) : ∀ c ∈ placeCells start raws, c.Between line := by
  induction raws generalizing before start with
  | nil => nofun
  | cons raw raws ih =>
    rw [List.flatMap_cons, List.append_assoc, List.append_assoc, List.singleton_append] at h
    refine List.forall_mem_cons.2 ⟨.mk h hstart rfl, ?_⟩
    have hlater : line = (before ++ '|' :: raw) ++ '|' :: (raws.flatMap (· ++ ['|']) ++ after) := by
      rw [h, List.append_assoc, List.cons_append]
    refine ih hlater ?_
    rw [hstart, List.length_append, List.length_cons]
    omega

@[simp] theorem map_raw_placeCells (start : Nat) (raws : List (List Char)) :
    (placeCells start raws).map Cell.raw = raws := by
  induction raws generalizing start with
  | nil => rfl
  | cons raw raws ih => rw [placeCells, List.map_cons, ih]

theorem flatMap_raw_placeCells (start : Nat) (raws : List (List Char)) :
    (placeCells start raws).flatMap (fun c => c.raw ++ ['|']) = raws.flatMap (· ++ ['|']) := by
  rw [← List.flatMap_map Cell.raw (· ++ ['|']), map_raw_placeCells]

theorem raw_mem_of_mem_placeCells (h : c ∈ placeCells start raws) : c.raw ∈ raws := by
  have hraw : c.raw ∈ (placeCells start raws).map Cell.raw := List.mem_map_of_mem h
  rwa [map_raw_placeCells] at hraw

/-- Neighbouring cells share a pipe. -/
theorem isChain_placeCells (start : Nat) (raws : List (List Char)) :
    (placeCells start raws).IsChain fun c d => d.start = c.stop + 1 := by
  induction raws generalizing start with
  | nil => exact .nil
  | cons raw raws ih =>
    cases raws with
    | nil => exact .singleton _
    | cons next raws => exact List.isChain_cons_cons.2 ⟨rfl, ih _⟩

/-- The last cell ends at the last pipe. -/
theorem getLast?_placeCells (start : Nat) (hne : raws ≠ []) :
    (placeCells start raws).getLast?.map (fun c => c.stop + 1) =
      some (start + (raws.flatMap (· ++ ['|'])).length) := by
  induction raws generalizing start with
  | nil => exact absurd rfl hne
  | cons raw raws ih =>
    rw [List.flatMap_cons, List.length_append, List.length_append, List.length_singleton]
    cases raws with
    | nil => rfl
    | cons next raws =>
      have hlast : (placeCells start (raw :: next :: raws)).getLast? =
          (placeCells (start + raw.length + 1) (next :: raws)).getLast? := List.getLast?_cons_cons
      rw [hlast, ih _ (List.cons_ne_nil _ _)]
      exact congrArg some (by omega)

theorem eq_of_isPipeRow (h : isPipeRow text) : text = '|' :: (inner text ++ ['|']) := by
  rw [isPipeRow, Bool.and_eq_true, Bool.and_eq_true, decide_eq_true_iff, decide_eq_true_iff,
    decide_eq_true_iff] at h
  obtain ⟨⟨hlength, hhead⟩, hlast⟩ := h
  cases text with
  | nil => cases hhead
  | cons c cs =>
    cases hhead
    have hne : cs ≠ [] := by
      rintro rfl
      exact absurd hlength (by decide)
    rw [List.getLast?_cons_of_ne_nil hne] at hlast
    exact congrArg _ (List.dropLast_append_getLast? _ hlast).symm

/-- The cells of a pipe row divide its line. -/
theorem divides_splitCells (h : isPipeRow (Text.trim line)) : Divides line (splitCells line) := by
  obtain ⟨before, after, hbefore, hafter, hline⟩ := Text.exists_trim line
  have htrim :
      Text.trim line = '|' :: ((inner (Text.trim line)).splitOn '|').flatMap (· ++ ['|']) := by
    rw [Text.flatMap_splitOn]
    exact eq_of_isPipeRow h
  have hlead : line.takeWhile Text.isBlank = before := by
    rw [hline, List.append_assoc, htrim]
    exact Text.takeWhile_append hbefore (by rintro _ ⟨⟩; rfl)
  have hcells :
      splitCells line = placeCells (before.length + 1) ((inner (Text.trim line)).splitOn '|') := by
    rw [splitCells, hlead]
  have hpieces : (inner (Text.trim line)).splitOn '|' ≠ [] := List.splitOn_ne_nil _ _
  have hfree : ∀ raw ∈ (inner (Text.trim line)).splitOn '|', '|' ∉ raw :=
    fun _ => Text.notMem_of_mem_splitOn
  generalize (inner (Text.trim line)).splitOn '|' = raws at *
  have hbetween : ∀ c ∈ placeCells (before.length + 1) raws, c.Between line := by
    rw [htrim, List.append_assoc, List.cons_append] at hline
    exact between_placeCells hline rfl
  rw [hcells]
  exact {
    standsIn := fun c hc => (hbetween c hc).standsIn (hfree c.raw (raw_mem_of_mem_placeCells hc))
    next := isChain_placeCells _ _
    trim_eq := by rw [flatMap_raw_placeCells, htrim]
    ends := by
      refine ⟨before, after, hbefore, hafter, hline, ?_, ?_⟩
      · cases raws with
        | nil => exact absurd rfl hpieces
        | cons raw raws => rfl
      · rw [getLast?_placeCells _ hpieces, htrim, List.length_cons]
        exact congrArg some (by omega) }

/-! ## The cells of a document -/

/-- The cells of all tables of a document stand in the lines of their headers and rows, and the rows
are as long as their lines. -/
theorem divided_of_tables {d : Document} {found : List Table} (h : tables d = .ok found) :
    ∀ table ∈ found, table.Divided d.lines := by
  intro table htable
  have hread := readAt_of_tables h table htable
  constructor
  · obtain ⟨line, hline, hpipe, hheaders⟩ := hread.headers
    exact ⟨line, hline, hheaders ▸ divides_splitCells hpipe⟩
  · intro row hrow
    obtain ⟨i, hi⟩ := List.mem_iff_getElem?.1 hrow
    obtain ⟨line, hline, hpipe, hrow⟩ := hread.getElem? hi
    obtain ⟨rfl, -⟩ := readRow_eq_ok hrow
    exact ⟨line, hline, divides_splitCells hpipe, rfl⟩

/-- A table with an ideographic space before it and one inside it, and with cells that are empty or
blank. -/
def indentedTable : Document where
  lines := ["\u3000 | é||", "|---|---|", "\t|\u3000漢字 \u00a0| |  "].map String.toList

theorem tables_indentedTable : (tables indentedTable).map (fun found => found.map fun table =>
    (table.headers.map fun c => (c.start, c.stop),
      table.rows.map fun row => (row.length, row.cells.map Cell.textSpan))) =
      .ok [([(3, 5), (6, 6)], [(12, [(3, 5), (8, 9)])])] := by
  cbv

theorem divided_of_tables_indented : ∃ found, tables indentedTable = .ok found ∧
    found.map (fun table => (table.headers.map fun c => (c.start, c.stop),
      table.rows.map fun row => (row.length, row.cells.map Cell.textSpan))) =
        [([(3, 5), (6, 6)], [(12, [(3, 5), (8, 9)])])] ∧
    ∀ table ∈ found, table.Divided indentedTable.lines := by
  have hfound := tables_indentedTable
  rcases h : tables indentedTable with failure | found <;> rw [h] at hfound
  · cases hfound
  · exact ⟨found, rfl, Except.ok.inj hfound, divided_of_tables h⟩

end TableDoc.Markdown
