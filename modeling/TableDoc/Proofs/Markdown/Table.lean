import TableDoc.Markdown.Table
import TableDoc.Proofs.Sequence
import TableDoc.Proofs.Text

/-!
# Where tables stand

A table that is found in lines is read at a pipe row right above a separator, and its rows are read
at the pipe rows right below (`readAt_of_tables`). So it has the cells of these lines, each of which
has as many cells as the header (`located_of_tables`).
-/

namespace TableDoc.Markdown

variable {name : String} {width n i : Nat} {line text : List Char}
  {lines texts rest : List (List Char)} {row : DataRow} {rows : List DataRow} {table : Table}
  {tables : List Table}

/-! ## Rows -/

/-- A row that is read has the cells of its line, as many as the table is wide. -/
theorem readRow_eq_ok {text : List Char} (h : readRow width n text = .ok row) :
    row = ⟨splitCells text, n, text.length⟩ ∧ row.cells.length = width := by
  rw [readRow] at h
  split at h
  · cases h
  · split at h
    · cases h
    · next hwidth =>
      cases h
      exact ⟨rfl, not_not.1 hwidth⟩

/-- Each row is read from its own text. -/
theorem readRow_of_readRows (h : readRows name width n texts = .ok rows)
    (hi : rows[i]? = some row) :
    ∃ text, texts[i]? = some text ∧ readRow width (n + i) text = .ok row := by
  induction texts generalizing n i rows with
  | nil =>
    cases h
    cases hi
  | cons text texts ih =>
    rw [readRows] at h
    split at h
    · cases h
    · next first hfirst =>
      obtain ⟨later, hlater, h⟩ := bind_eq_ok_iff.1 h
      cases h
      cases i with
      | zero =>
        cases hi
        exact ⟨text, rfl, hfirst⟩
      | succ i =>
        rw [← Nat.add_assoc, Nat.add_right_comm]
        exact ih hlater hi

theorem getElem?_of_pipeRows (h : (pipeRows texts)[i]? = some text) :
    texts[i]? = some text ∧ isPipeRow (Text.trim text) := by
  have hmem : text ∈ texts.takeWhile fun l => isPipeRow (Text.trim l) := List.mem_of_getElem? h
  obtain ⟨hi, hget⟩ := List.getElem?_eq_some_iff.1 h
  have hpipe := Text.of_mem_takeWhile hmem
  refine ⟨?_, hpipe⟩
  rw [List.prefix_iff_getElem?.1 (List.takeWhile_prefix _) i hi]
  exact congrArg some hget

/-! ## Tables -/

theorem isPipeRow_of_startsTable (h : startsTable line rest) : isPipeRow (Text.trim line) := by
  cases rest with
  | nil => cases h
  | cons next rest =>
    rw [startsTable, Bool.and_eq_true] at h
    exact h.1

/-- A table is read at the line of its header, from this line and those below. -/
inductive Table.ReadAt (lines : List (List Char)) (table : Table) : Prop
  | mk {line : List Char} {below : List (List Char)} : lines.drop table.headerLine = line :: below →
    startsTable line below → table.headers = splitCells line →
    readRows table.name table.headers.length (table.headerLine + 2) (pipeRows below.tail) =
      .ok table.rows →
    ReadAt lines table

/-- A row of data has the cells of its line, as many as the header. -/
structure DataRow.Located (lines : List (List Char)) (width line : Nat) (row : DataRow) : Prop where
  text : ∃ text, lines[line]? = some text ∧ row = ⟨splitCells text, line, text.length⟩
  width : row.cells.length = width

/-- A table has the cells of the lines at which it stands. -/
structure Table.Located (lines : List (List Char)) (table : Table) : Prop where
  header : ∃ text, lines[table.headerLine]? = some text ∧ table.headers = splitCells text
  rows : ∀ (i : Nat) (row : DataRow), table.rows[i]? = some row →
    row.Located lines table.headers.length (table.headerLine + 2 + i)

namespace Table.ReadAt

theorem headers (h : table.ReadAt lines) :
    ∃ line, lines[table.headerLine]? = some line ∧ isPipeRow (Text.trim line) ∧
      table.headers = splitCells line := by
  obtain ⟨hdrop, hstarts, hheaders, -⟩ := h
  exact ⟨_, (drop_succ_of_cons hdrop.symm).1, isPipeRow_of_startsTable hstarts, hheaders⟩

theorem getElem? (h : table.ReadAt lines) (hi : table.rows[i]? = some row) :
    ∃ text, lines[table.headerLine + 2 + i]? = some text ∧ isPipeRow (Text.trim text) ∧
      readRow table.headers.length (table.headerLine + 2 + i) text = .ok row := by
  obtain ⟨hdrop, -, -, hrows⟩ := h
  obtain ⟨text, htext, hrow⟩ := readRow_of_readRows hrows hi
  obtain ⟨htext, hpipe⟩ := getElem?_of_pipeRows htext
  refine ⟨text, ?_, hpipe, hrow⟩
  rw [(drop_succ_of_cons hdrop.symm).2, List.tail_drop, List.getElem?_drop] at htext
  exact htext

/-- A table that is read at a line stands there. -/
theorem located (h : table.ReadAt lines) : table.Located lines := by
  constructor
  · obtain ⟨line, hline, -, hheaders⟩ := h.headers
    exact ⟨line, hline, hheaders⟩
  · intro i row hi
    obtain ⟨text, htext, -, hrow⟩ := h.getElem? hi
    obtain ⟨hrow, hwidth⟩ := readRow_eq_ok hrow
    exact ⟨⟨text, htext, hrow⟩, hwidth⟩

end Table.ReadAt

/-- Every table is read at the line of its header. -/
theorem readAt_of_tablesFrom {fence : Fence} {heading : Option Heading} {count : Nat}
    (h : tablesFrom fence heading count n rest = .ok tables) (hrest : rest = lines.drop n) :
    ∀ table ∈ tables, table.ReadAt lines := by
  fun_induction tablesFrom fence heading count n rest generalizing tables with
  | case1 =>
    cases h
    nofun
  | case2 _ _ _ _ _ _ _ _ ih => exact ih h (drop_succ_of_cons hrest).2
  | case3 _ _ _ _ _ _ _ _ _ _ _ _ ih => exact ih h (drop_succ_of_cons hrest).2
  | case5 _ _ _ _ _ _ _ _ _ _ _ _ ih => exact ih h (drop_succ_of_cons hrest).2
  | case4 _ _ _ n line rest _ _ _ _ _ hstarts _ _ texts =>
    rename_i ih
    have htail : rest.tail = lines.drop (n + 2) := by
      rw [(drop_succ_of_cons hrest).2, List.tail_drop]
    obtain ⟨rows, hrows, h⟩ := bind_eq_ok_iff.1 h
    obtain ⟨later, hlater, h⟩ := bind_eq_ok_iff.1 h
    cases h
    exact List.forall_mem_cons.2 ⟨.mk hrest.symm hstarts rfl hrows,
      ih hlater (by rw [htail, List.drop_drop])⟩

theorem readAt_of_tables {d : Document} (h : Markdown.tables d = .ok tables) :
    ∀ table ∈ tables, table.ReadAt d.lines :=
  readAt_of_tablesFrom h rfl

theorem located_of_tables {d : Document} (h : Markdown.tables d = .ok tables) :
    ∀ table ∈ tables, table.Located d.lines :=
  fun table htable => (readAt_of_tables h table htable).located

end TableDoc.Markdown
