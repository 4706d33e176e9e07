import TableDoc.Proofs.Markdown.Fences

/-!
# Printed tables

Tables that are printed one after another, each below a heading with its name and above an empty
line, are read back with the same names and the same cells, and at the lines at which they were
printed (`tables_printed`). A line of cells is a pipe row whatever the cells are, so no cell can be
taken for a heading, for a fence or for the end of its table; and the search reads the separator of
a table where it was printed, so no row can be taken for one.
-/

namespace TableDoc.Markdown

/-! ## What is printed -/

/-- What a table says, wherever it stands. -/
structure Grid where
  name : List Char
  header : List (List Char)
  rows : List (List (List Char))
  deriving DecidableEq, Repr

/-- What a table says. -/
def Table.grid (t : Table) : Grid :=
  ⟨t.name.toList, t.headers.map Cell.raw, t.rows.map fun row => row.cells.map Cell.raw⟩

/-- Cells in a line, with a pipe on either side of each. -/
def pipeLine (cells : List (List Char)) : List Char := '|' :: (['|'].intercalate cells ++ ['|'])

namespace Grid

/-- The heading above a table. -/
def headingLine (g : Grid) : List Char := '#' :: '#' :: ' ' :: g.name

/-- The line between the header and the rows. -/
def separator (g : Grid) : List Char := pipeLine (List.replicate g.header.length ['-', '-', '-'])

/-- The lines of a table. -/
def lines (g : Grid) : List (List Char) :=
  g.headingLine :: pipeLine g.header :: g.separator :: (g.rows.map pipeLine ++ [[]])

/-- The rows, the first of which is line `n`. -/
def rowsAt (n : Nat) (g : Grid) : List DataRow :=
  (g.rows.zipIdx n).map fun (cells, i) => ⟨placeCells 1 cells, i, (pipeLine cells).length⟩

/-- The table whose first line is line `n`. -/
def tableAt (n : Nat) (g : Grid) : Table where
  name := .ofList g.name
  heading := some (Span.ofLine n g.headingLine)
  headerLine := n + 1
  headerSpan := Span.ofLine (n + 1) (pipeLine g.header)
  headers := placeCells 1 g.header
  rows := g.rowsAt (n + 3)

end Grid

/-- Tables one after another, the first line of which is line `n`. -/
def tablesAt (n : Nat) : List Grid → List Table
  | [] => []
  | g :: gs => g.tableAt n :: tablesAt (n + g.lines.length) gs

/-- The text of tables one after another: their lines, a line feed after each. -/
def printed (gs : List Grid) : List Char := (gs.flatMap Grid.lines).flatMap (· ++ ['\n'])

/-- No line break. -/
def OneLine (cs : List Char) : Prop := '\n' ∉ cs ∧ '\r' ∉ cs

/-- What can stand between two pipes. -/
def IsCell (cs : List Char) : Prop := '|' ∉ cs ∧ OneLine cs

instance : DecidablePred OneLine := fun cs => inferInstanceAs (Decidable ('\n' ∉ cs ∧ '\r' ∉ cs))

instance : DecidablePred IsCell := fun cs => inferInstanceAs (Decidable ('|' ∉ cs ∧ OneLine cs))

/-- A table that can be printed: it has a name without blanks at the ends and at least one column,
its rows have as many cells as the header, and there is no tab in these. -/
@[mk_iff]
structure Grid.Printable (g : Grid) : Prop where
  name_ne_nil : g.name ≠ []
  trim_name : Text.trim g.name = g.name
  oneLine_name : OneLine g.name
  header_ne_nil : g.header ≠ []
  header : ∀ cell ∈ g.header, IsCell cell
  length_row : ∀ row ∈ g.rows, row.length = g.header.length
  rows : ∀ row ∈ g.rows, ∀ cell ∈ row, IsCell cell ∧ '\t' ∉ cell

instance (g : Grid) : Decidable g.Printable := decidable_of_iff' _ g.printable_iff

variable {g : Grid} {gs : List Grid} {cells : List (List Char)} {rows : List (List (List Char))}
  {width n : Nat}

/-! ## Lines of cells -/

theorem getLast?_pipeLine (cells : List (List Char)) : (pipeLine cells).getLast? = some '|' := by
  rw [pipeLine, ← List.cons_append, List.getLast?_concat]

theorem trim_pipeLine (cells : List (List Char)) : Text.trim (pipeLine cells) = pipeLine cells :=
  (Text.isTrimmed_of_ends rfl rfl (getLast?_pipeLine cells) rfl).trim_eq

theorem isPipeRow_pipeLine (cells : List (List Char)) : isPipeRow (pipeLine cells) := by
  have hlength : 2 ≤ (pipeLine cells).length := by
    rw [pipeLine, List.length_cons, List.length_append]
    exact Nat.succ_le_succ (Nat.le_add_left 1 _)
  rw [isPipeRow, getLast?_pipeLine, decide_eq_true hlength]
  rfl

theorem inner_pipeLine (cells : List (List Char)) :
    inner (pipeLine cells) = ['|'].intercalate cells :=
  List.dropLast_concat

/-- A printed row is split into its cells. -/
theorem splitCells_pipeLine (hne : cells ≠ []) (h : ∀ cell ∈ cells, '|' ∉ cell) :
    splitCells (pipeLine cells) = placeCells 1 cells := by
  have hblanks : (pipeLine cells).takeWhile Text.isBlank = [] := rfl
  rw [splitCells, hblanks, trim_pipeLine, inner_pipeLine, List.splitOn_intercalate '|' h hne]
  rfl

theorem length_placeCells (start : Nat) (raws : List (List Char)) :
    (placeCells start raws).length = raws.length := by
  rw [← List.length_map Cell.raw, map_raw_placeCells]

/-- A printed row is read back. -/
theorem readRow_pipeLine (hne : cells ≠ []) (hcells : ∀ cell ∈ cells, IsCell cell ∧ '\t' ∉ cell)
    (hwidth : cells.length = width) :
    readRow width n (pipeLine cells) = .ok ⟨placeCells 1 cells, n, (pipeLine cells).length⟩ := by
  have hsplit : splitCells (pipeLine cells) = placeCells 1 cells :=
    splitCells_pipeLine hne fun cell hcell => (hcells cell hcell).1.1
  have htab : (placeCells 1 cells).any (fun c => c.raw.contains '\t') = false := by
    rw [List.any_eq_false]
    intro c hc
    rw [List.contains_iff_mem]
    exact (hcells c.raw (raw_mem_of_mem_placeCells hc)).2
  rw [readRow, hsplit]
  simp only [htab, length_placeCells, hwidth, Bool.false_eq_true, if_false, ne_eq, not_true]

/-- Printed rows are read back one after another. -/
theorem readRows_map_pipeLine (name : String) (n : Nat) (hwidth : 0 < width)
    (hrows : ∀ row ∈ rows, row.length = width)
    (hcells : ∀ row ∈ rows, ∀ cell ∈ row, IsCell cell ∧ '\t' ∉ cell) :
    readRows name width n (rows.map pipeLine) =
      .ok ((rows.zipIdx n).map fun (cells, i) =>
        ⟨placeCells 1 cells, i, (pipeLine cells).length⟩) := by
  induction rows generalizing n with
  | nil => rfl
  | cons row rows ih =>
    obtain ⟨hrow, hrows⟩ := List.forall_mem_cons.1 hrows
    obtain ⟨hrowCells, hcells⟩ := List.forall_mem_cons.1 hcells
    have hne : row ≠ [] := List.ne_nil_of_length_pos (hrow ▸ hwidth)
    rw [List.map_cons, readRows, readRow_pipeLine hne hrowCells hrow, ih (n + 1) hrows hcells]
    rfl

/-- The rows of a printed table end at its blank line. -/
theorem pipeRows_map_pipeLine (rows : List (List (List Char))) (rest : List (List Char)) :
    pipeRows (rows.map pipeLine ++ [] :: rest) = rows.map pipeLine := by
  refine Text.takeWhile_append (List.forall_mem_map.2 fun row _ => ?_) ?_
  · rw [trim_pipeLine]
    exact isPipeRow_pipeLine row
  · rintro line ⟨⟩
    rfl

theorem notMem_pipeLine {c : Char} (hc : c ≠ '|') (h : ∀ cell ∈ cells, c ∉ cell) :
    c ∉ pipeLine cells := by
  have hpipe : c ∉ ['|'] := fun hmem => hc (List.mem_singleton.1 hmem)
  refine List.not_mem_cons_of_ne_of_not_mem hc (List.not_mem_append ?_ hpipe)
  induction cells with
  | nil => exact List.not_mem_nil
  | cons cell cells ih =>
    obtain ⟨hcell, hcells⟩ := List.forall_mem_cons.1 h
    cases cells with
    | nil =>
      rw [List.intercalate_singleton]
      exact hcell
    | cons next cells =>
      rw [List.intercalate_cons_cons]
      exact List.not_mem_append (List.not_mem_append hcell hpipe) (ih hcells)

theorem oneLine_pipeLine (h : ∀ cell ∈ cells, OneLine cell) : OneLine (pipeLine cells) :=
  ⟨notMem_pipeLine (by decide) fun cell hcell => (h cell hcell).1,
    notMem_pipeLine (by decide) fun cell hcell => (h cell hcell).2⟩

/-! ## The lines of a table -/

/-- A printed row opens no fence. -/
theorem feed_pipeLine (cells : List (List Char)) :
    Fence.feed none (pipeLine cells) = (false, none) := by
  refine feed_none_of_isPipeRow ?_
  rw [trim_pipeLine]
  exact isPipeRow_pipeLine cells

theorem headingText?_pipeLine (cells : List (List Char)) :
    headingText? (pipeLine cells) = none := rfl

namespace Grid.Printable

theorem trim_headingLine (h : g.Printable) : Text.trim g.headingLine = g.headingLine := by
  have hname : Text.IsTrimmed g.name := h.trim_name ▸ Text.isTrimmed_trim g.name
  refine Text.IsTrimmed.trim_eq ⟨?_, ?_⟩
  · rintro c ⟨⟩
    rfl
  · obtain ⟨c, cs, hc⟩ := List.exists_cons_of_ne_nil h.name_ne_nil
    rw [headingLine, List.getLast?_cons_cons, List.getLast?_cons_cons, hc,
      List.getLast?_cons_cons, ← hc]
    exact hname.getLast?

/-- A printed heading has the name of its table. -/
theorem headingText?_headingLine (h : g.Printable) : headingText? g.headingLine = some g.name := by
  have hdrop : g.headingLine.dropWhile (· = '#') = ' ' :: g.name := rfl
  rw [headingText?, hdrop]
  dsimp only
  rw [if_pos ⟨rfl, rfl⟩, h.trim_name]

/-- A printed separator is one. -/
theorem isSeparator_separator (h : g.Printable) : isSeparator g.separator := by
  have hcells : ∀ cell ∈ List.replicate g.header.length ['-', '-', '-'], cell = ['-', '-', '-'] :=
    fun _ => List.eq_of_mem_replicate
  have hne : List.replicate g.header.length ['-', '-', '-'] ≠ [] := by
    rw [Ne, List.replicate_eq_nil_iff, List.length_eq_zero_iff]
    exact h.header_ne_nil
  have hpipe : ∀ cell ∈ List.replicate g.header.length ['-', '-', '-'], '|' ∉ cell := by
    intro cell hcell
    rw [hcells cell hcell]
    decide
  rw [isSeparator, Grid.separator, isPipeRow_pipeLine, inner_pipeLine,
    List.splitOn_intercalate '|' hpipe hne, Bool.true_and, List.all_eq_true]
  intro cell hcell
  rw [hcells cell hcell]
  decide

theorem feed_headingLine (h : g.Printable) : Fence.feed none g.headingLine = (false, none) := by
  refine feed_none_of_head? ?_
  rw [h.trim_headingLine, headingLine, List.head?_cons]
  decide

/-- A printed header and separator start a table. -/
theorem startsTable_lines (h : g.Printable) (rest : List (List Char)) :
    startsTable (pipeLine g.header) (g.separator :: rest) := by
  have htrim : Text.trim g.separator = g.separator := trim_pipeLine _
  rw [startsTable, trim_pipeLine, isPipeRow_pipeLine, htrim, h.isSeparator_separator]
  rfl

theorem readRows_rows (h : g.Printable) (name : String) (n : Nat) :
    readRows name g.header.length n (g.rows.map pipeLine) = .ok (g.rowsAt n) :=
  readRows_map_pipeLine name n (List.length_pos_iff.2 h.header_ne_nil) h.length_row h.rows

/-- The search takes the heading above a table for the name of the next table. -/
theorem tablesFrom_headingLine (h : g.Printable) (heading : Option Heading) (count n : Nat)
    (rest : List (List Char)) :
    tablesFrom none heading count n (g.headingLine :: rest) =
      tablesFrom none (some ⟨.ofList g.name, Span.ofLine n g.headingLine⟩) count (n + 1) rest := by
  rw [tablesFrom.eq_def]
  simp only [h.feed_headingLine, h.trim_headingLine, h.headingText?_headingLine, Bool.false_eq_true,
    if_false]

/-- The search takes all lines of a table for that table, whichever heading comes before. -/
theorem tablesFrom_lines (h : g.Printable) (heading : Option Heading) (count n : Nat)
    (rest : List (List Char)) :
    tablesFrom none heading count n (g.lines ++ rest) =
      (g.tableAt n :: ·) <$> tablesFrom none none (count + 1) (n + g.lines.length) rest := by
  have hheader : splitCells (pipeLine g.header) = placeCells 1 g.header :=
    splitCells_pipeLine h.header_ne_nil fun cell hcell => (h.header cell hcell).1
  have hlines : g.lines ++ rest =
      g.headingLine :: pipeLine g.header :: g.separator :: (g.rows.map pipeLine ++ [] :: rest) := by
    rw [lines, List.cons_append, List.cons_append, List.cons_append, List.append_assoc,
      List.singleton_append]
  have hlength : n + g.lines.length = n + 1 + 2 + (g.rows.map pipeLine).length + 1 := by
    rw [lines, List.length_cons, List.length_cons, List.length_cons, List.length_append,
      List.length_singleton]
    omega
  rw [hlines, h.tablesFrom_headingLine, tablesFrom.eq_def]
  simp only [feed_pipeLine, trim_pipeLine, headingText?_pipeLine, h.startsTable_lines,
    Bool.false_eq_true, if_false, if_true, List.tail_cons, hheader, pipeRows_map_pipeLine,
    length_placeCells, h.readRows_rows]
  rw [List.drop_left, tablesFrom_cons_nil, ← hlength, map_eq_pure_bind]
  rfl

theorem oneLine_of_mem_lines (h : g.Printable) : ∀ line ∈ g.lines, OneLine line := by
  have hmark : OneLine ['#', '#', ' '] := by decide
  have hheading : OneLine g.headingLine :=
    ⟨List.not_mem_append hmark.1 h.oneLine_name.1, List.not_mem_append hmark.2 h.oneLine_name.2⟩
  have hseparator : OneLine g.separator := oneLine_pipeLine fun cell hcell => by
    rw [List.eq_of_mem_replicate hcell]
    decide
  have hrows : ∀ line ∈ g.rows.map pipeLine, OneLine line := List.forall_mem_map.2 fun row hrow =>
    oneLine_pipeLine fun cell hcell => (h.rows row hrow cell hcell).1.2
  have hempty : ∀ line ∈ [[]], OneLine line := List.forall_mem_singleton.2 (by decide)
  rw [lines, List.forall_mem_cons, List.forall_mem_cons, List.forall_mem_cons,
    List.forall_mem_append]
  exact ⟨hheading, oneLine_pipeLine fun cell hcell => (h.header cell hcell).2, hseparator, hrows,
    hempty⟩

end Grid.Printable

/-! ## The lines of a text -/

/-- The lines of the text are those of the tables, and an empty one behind the last line feed. -/
theorem ofText_printed (h : ∀ g ∈ gs, g.Printable) :
    Document.ofText (.ofList (printed gs)) = ⟨gs.flatMap Grid.lines ++ [[]]⟩ := by
  have hlines : ∀ line ∈ gs.flatMap Grid.lines ++ [[]], OneLine line := by
    rw [List.forall_mem_append, List.forall_mem_flatMap]
    exact ⟨fun g hg => (h g hg).oneLine_of_mem_lines, List.forall_mem_singleton.2 (by decide)⟩
  have hprinted : printed gs = Text.unlines (gs.flatMap Grid.lines ++ [[]]) :=
    (Text.unlines_concat_nil _).symm
  have hreturn : '\r' ∉ printed gs := by
    intro hmem
    obtain ⟨line, hline, hmem⟩ := List.mem_flatMap.1 hmem
    have hreturn : '\r' ∉ line := (hlines line (List.mem_append_left _ hline)).2
    exact List.not_mem_append hreturn (by decide) hmem
  have hnewline : ∀ line ∈ gs.flatMap Grid.lines ++ [[]], '\n' ∉ line := fun line hline =>
    (hlines line hline).1
  rw [Document.ofText, String.toList_ofList, Text.normalize_of_notMem hreturn, hprinted]
  exact congrArg Document.mk (Text.lines_unlines hnewline (List.concat_ne_nil [] _))

theorem frontEnd?_printed (gs : List Grid) :
    Document.frontEnd? ⟨gs.flatMap Grid.lines ++ [[]]⟩ = none := by
  rw [Document.frontEnd?]
  cases gs <;> rfl

/-! ## Reading printed tables -/

theorem grid_tableAt (n : Nat) (g : Grid) : (g.tableAt n).grid = g := by
  have hrows : (g.rowsAt (n + 3)).map (fun row => row.cells.map Cell.raw) = g.rows := by
    rw [Grid.rowsAt, List.map_map]
    calc (g.rows.zipIdx (n + 3)).map _ = (g.rows.zipIdx (n + 3)).map Prod.fst :=
          List.map_congr_left fun item _ => map_raw_placeCells 1 item.1
      _ = g.rows := List.zipIdx_map_fst _ _
  rw [Table.grid, Grid.tableAt, map_raw_placeCells, String.toList_ofList, hrows]

/-- The tables that are read have the printed grids. -/
theorem map_grid_tablesAt (n : Nat) (gs : List Grid) : (tablesAt n gs).map Table.grid = gs := by
  induction gs generalizing n with
  | nil => rfl
  | cons g gs ih => rw [tablesAt, List.map_cons, grid_tableAt, ih]

/-- Printed tables are read back one after another. -/
theorem tablesFrom_printed (h : ∀ g ∈ gs, g.Printable) (heading : Option Heading) (count n : Nat) :
    tablesFrom none heading count n (gs.flatMap Grid.lines ++ [[]]) = .ok (tablesAt n gs) := by
  induction gs generalizing heading count n with
  | nil => rw [List.flatMap_nil, List.nil_append, tablesFrom_cons_nil, tablesFrom_nil, tablesAt]
  | cons g gs ih =>
    obtain ⟨hg, hgs⟩ := List.forall_mem_cons.1 h
    rw [List.flatMap_cons, List.append_assoc, hg.tablesFrom_lines, ih hgs, tablesAt]
    rfl

/-- The lines of printed tables are the lines of the text. The tables are found there again, with
their names and cells and with the numbers of the lines at which they were printed. -/
theorem tables_printed (gs : List Grid) (h : ∀ g ∈ gs, g.Printable) :
    let d := Document.ofText (.ofList (printed gs))
    d.lines = gs.flatMap Grid.lines ++ [[]] ∧ tables d = .ok (tablesAt 0 gs) ∧
      (tablesAt 0 gs).map Table.grid = gs := by
  intro d
  have hlines : d = ⟨gs.flatMap Grid.lines ++ [[]]⟩ := ofText_printed h
  refine ⟨congrArg Document.lines hlines, ?_, map_grid_tablesAt 0 gs⟩
  rw [hlines, tables, frontEnd?_printed]
  exact tablesFrom_printed h none 0 0

/-- Tables with cells that look like separators, fences and headings. -/
def misleading : List Grid :=
  [{ name := "# x".toList
     header := ["---", "a\tb"].map String.toList
     rows := [["---", "---"], ["```", ""], ["## y", "\u3000"]].map (List.map String.toList) },
   { name := "```".toList
     header := [[]]
     rows := [] }]

theorem tables_printed_misleading : ∃ found,
    tables (.ofText ("## # x\n|---|a\tb|\n|---|---|\n|---|---|\n|```||\n|## y|\u3000|\n\n" ++
      "## ```\n||\n|---|\n\n")) = .ok found ∧ found.map Table.grid = misleading ∧
        found.map (fun t => (t.headerLine, t.rows.map DataRow.line)) =
          [(1, [3, 4, 5]), (8, [])] := by
  have hprintable : ∀ g ∈ misleading, g.Printable := by decide +kernel
  obtain ⟨-, htables, hgrids⟩ := tables_printed misleading hprintable
  exact ⟨_, htables, hgrids, by decide +kernel⟩

end TableDoc.Markdown
