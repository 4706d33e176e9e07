import TableDoc.Proofs.Diagnostic
import TableDoc.Proofs.Markdown.Cells

/-!
# Places in tables

The cells of a pipe row stand inside its line, and so do their texts. So all places of a table that
is found in lines are inside these lines (`Table.Inside`), and a table that cannot be read fails
with the place of one of its rows (`inside_of_tables`).
-/

namespace TableDoc.Markdown

variable {lines texts rest : List (List Char)} {text line : List Char} {name : String}
  {width n : Nat} {c : Cell} {row : DataRow}

/-! ## Rows and tables -/

/-- The places of a row and of its cells are inside the lines. -/
structure DataRow.Inside (lines : List (List Char)) (row : DataRow) : Prop where
  span : row.span.Inside lines
  cellSpan : ∀ i, (row.cellSpan i).Inside lines

/-- The places of a table and of its headers and rows are inside the lines. -/
structure Table.Inside (lines : List (List Char)) (table : Table) : Prop where
  span : table.span.Inside lines
  headerSpan : table.headerSpan.Inside lines
  headers : ∀ c ∈ table.headers, (Span.within table.headerLine c.start c.stop).Inside lines
  rows : ∀ row ∈ table.rows, row.Inside lines

/-- The cells of a header stand inside the document. -/
theorem inside_header (h : lines[n]? = some line) (hpipe : isPipeRow (Text.trim line)) :
    ∀ c ∈ splitCells line, (Span.within n c.start c.stop).Inside lines := by
  intro c hc
  have hcell := (divides_splitCells hpipe).standsIn c hc
  exact Span.inside_within h hcell.le (Nat.le_of_lt hcell.stop_lt)

/-- A row that is read stands inside the document. -/
theorem inside_of_readRow (h : lines[n]? = some text) (hpipe : isPipeRow (Text.trim text))
    (hrow : readRow width n text = .ok row) : row.Inside lines := by
  obtain ⟨rfl, -⟩ := readRow_eq_ok hrow
  have hspan : (Span.within n 0 text.length).Inside lines := Span.inside_ofLine h
  refine ⟨hspan, fun i => ?_⟩
  rw [DataRow.cellSpan]
  split
  · next c hc =>
    obtain ⟨hle, hstop⟩ :=
      ((divides_splitCells hpipe).standsIn c (List.mem_of_getElem? hc)).textSpan_le
    exact Span.inside_within h hle hstop
  · exact hspan

/-- The rows below a header, or the place of one that cannot be read. -/
theorem inside_of_readRows (hpipe : ∀ text ∈ texts, isPipeRow (Text.trim text))
    (hlines : texts <+: lines.drop n) :
    (∀ rows, readRows name width n texts = .ok rows → ∀ row ∈ rows, row.Inside lines) ∧
      FailsAs (Diagnostic.Complete lines) (readRows name width n texts) := by
  induction texts generalizing n with
  | nil => exact ⟨by rintro _ ⟨⟩; exact List.forall_mem_nil _, .ok []⟩
  | cons text texts ih =>
    obtain ⟨htextPipe, hpipe⟩ := List.forall_mem_cons.1 hpipe
    obtain ⟨rest, hrest⟩ := hlines
    obtain ⟨htext, hlater⟩ := drop_succ_of_cons hrest
    obtain ⟨ihok, iherror⟩ := ih hpipe ⟨rest, hlater⟩
    rw [readRows]
    rcases hrow : readRow width n text with fault | row
    · refine ⟨by rintro _ ⟨⟩,
        .error (Diagnostic.complete_of_span ?_ rfl rfl (Span.inside_ofLine htext))⟩
      cases fault <;> rintro ⟨⟩
    · refine ⟨fun rows h => ?_, iherror.bind fun rows _ => .ok (row :: rows)⟩
      obtain ⟨later, hlater, h⟩ := bind_eq_ok_iff.1 h
      cases h
      exact List.forall_mem_cons.2 ⟨inside_of_readRow htext htextPipe hrow, ihok later hlater⟩

/-- Tables stand inside the document, and so do the faults of tables. -/
theorem inside_of_tablesFrom {fence : Fence} {heading : Option Heading} {count : Nat}
    (hrest : rest = lines.drop n) (hheading : ∀ h ∈ heading, h.span.Inside lines) :
    (∀ tables, tablesFrom fence heading count n rest = .ok tables →
      ∀ table ∈ tables, table.Inside lines) ∧
      FailsAs (Diagnostic.Complete lines) (tablesFrom fence heading count n rest) := by
  fun_induction tablesFrom fence heading count n rest with
  | case1 => exact ⟨by rintro _ ⟨⟩; exact List.forall_mem_nil _, .ok []⟩
  | case2 _ _ _ _ _ _ _ _ ih => exact ih (drop_succ_of_cons hrest).2 hheading
  | case3 _ heading _ _ line _ _ _ _ _ name _ ih =>
    obtain ⟨hline, hbelow⟩ := drop_succ_of_cons hrest
    refine ih hbelow ?_
    rintro _ ⟨⟩
    exact Span.inside_ofLine hline
  | case5 _ _ _ _ _ _ _ _ _ _ _ _ ih => exact ih (drop_succ_of_cons hrest).2 hheading
  | case4 _ heading _ n line rest _ _ _ _ _ hstarts _ _ texts =>
    rename_i ih
    obtain ⟨hline, hbelow⟩ := drop_succ_of_cons hrest
    have htail : rest.tail = lines.drop (n + 2) := by rw [hbelow, List.tail_drop]
    have hprefix : texts <+: lines.drop (n + 2) := htail ▸ List.takeWhile_prefix _
    obtain ⟨hrowsOk, hrowsError⟩ := inside_of_readRows (fun _ => Text.of_mem_takeWhile) hprefix
    obtain ⟨ihOk, ihError⟩ := ih (by rw [htail, List.drop_drop]) (by rintro _ ⟨⟩)
    refine ⟨fun tables h => ?_, hrowsError.bind fun rows _ => ihError.bind fun later _ => .ok _⟩
    obtain ⟨rows, hrows, h⟩ := bind_eq_ok_iff.1 h
    obtain ⟨later, hlater, h⟩ := bind_eq_ok_iff.1 h
    cases h
    refine List.forall_mem_cons.2 ⟨?_, ihOk later hlater⟩
    exact {
      span := by
        cases heading with
        | none => exact Span.inside_ofLine hline
        | some place => exact hheading place rfl
      headerSpan := Span.inside_ofLine hline
      headers := inside_header hline (isPipeRow_of_startsTable hstarts)
      rows := hrowsOk rows hrows }

/-- The places of all tables of a document are inside it, and so is the place at which a table
cannot be read. -/
theorem inside_of_tables {d : Document} :
    (∀ tables, Markdown.tables d = .ok tables → ∀ table ∈ tables, table.Inside d.lines) ∧
      FailsAs (Diagnostic.Complete d.lines) (Markdown.tables d) :=
  inside_of_tablesFrom rfl nofun

end TableDoc.Markdown
