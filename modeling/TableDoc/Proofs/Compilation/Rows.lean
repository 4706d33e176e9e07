import TableDoc.Compilation.Rows
import TableDoc.Proofs.Row
import TableDoc.Proofs.Sequence

/-!
# The rows of a declared table

The headers of a table that passes are the declared columns (`checkColumns_eq_ok`), and its rows
have the values of the cells (`RowOf`). Each of the rows has a key of its own, which is the text of
the value of one of its cells (`keyedRows_of_inputRows`).
-/

namespace TableDoc.Compilation

variable {t : TableSchema} {p : Pair} {data : Markdown.DataRow} {row : Row}

/-- Headers that pass are the declared columns in their order. -/
theorem checkColumns_eq_ok {headers : List Markdown.Cell} {columns : List String}
    (h : checkColumns p headers columns = .ok ()) :
    headers.map (fun cell => .ofList cell.text) = columns := by
  induction headers generalizing columns with
  | nil =>
    cases columns with
    | nil => rfl
    | cons c columns => cases h
  | cons header headers ih =>
    cases columns with
    | nil => cases h
    | cons c columns =>
      rw [checkColumns] at h
      split at h
      · next hc => rw [List.map_cons, hc, ih h]
      · cases h

variable [Cell.DateReader]

/-- The row has the values of the cells under the columns of their places. -/
structure RowOf (t : TableSchema) (data : Markdown.DataRow) (row : Row) : Prop where
  columns : row.columns = t.columns
  value : ∀ (i : Nat) (column : String), t.columns[i]? = some column →
    ∃ value, cellValue t data column i = .ok value ∧ row.get? column = some value

/-- The values of a row are those of its cells, column by column. -/
theorem rowOf_of_rowValues (hcolumns : t.columns.Nodup) (h : rowValues t data = .ok row) :
    RowOf t data row := by
  rw [rowValues] at h
  obtain ⟨cells, hcells, h⟩ := bind_eq_ok_iff.1 h
  cases h
  have hread := (forall₂_of_mapM_ok hcells).imp fun _ _ h => bind_eq_ok_iff.1 h
  -- the cells have the names of the columns, which are different, so none replaces another
  have hnames : cells.map Prod.fst = t.columns := by
    rw [← List.zipIdx_map_fst 0 t.columns]
    refine (forall₂_map_eq hread ?_).symm
    rintro _ _ ⟨value, -, h⟩
    cases h
    rfl
  have hrow : (Row.ofList cells).cells = cells := Row.cells_ofList (hnames.symm ▸ hcolumns)
  refine ⟨?_, fun i column hi => ?_⟩
  · rw [Row.columns, hrow, hnames]
  · have hindex : t.columns.zipIdx[i]? = some (column, i) := by
      rw [List.getElem?_zipIdx, hi, Option.map_some, Nat.zero_add]
    obtain ⟨cell, hcell, value, hvalue, h⟩ := exists_getElem?_of_forall₂ hread hindex
    cases h
    refine ⟨value, hvalue, Row.get?_eq_some_iff.2 ?_⟩
    rw [hrow]
    exact List.mem_of_getElem? hcell

/-! ## Keys -/

omit [Cell.DateReader] in
/-- The key of a row is the text of its value, which is neither null nor empty. -/
theorem keyText?_eq_some_iff {key : String} : keyText? t row = some key ↔
    ∃ value, row.get? t.key = some value ∧ value ≠ .null ∧ value.toText = key ∧ key ≠ "" := by
  rw [keyText?]
  split
  · next hnone => exact iff_of_false nofun fun ⟨_, hvalue, _⟩ => nomatch hnone.symm.trans hvalue
  · next hnull =>
    exact iff_of_false nofun fun ⟨_, hvalue, hne, _⟩ =>
      hne (Option.some.inj (hvalue.symm.trans hnull))
  · next value hnull hvalue =>
    split
    · next hempty =>
      refine iff_of_false nofun fun ⟨_, hother, _, htext, hne⟩ => hne ?_
      cases hvalue.symm.trans hother
      rw [← htext, hempty]
    · next hne =>
      rw [Option.some.injEq]
      constructor
      · rintro rfl
        exact ⟨value, hvalue, hnull, rfl, hne⟩
      · rintro ⟨_, hother, _, rfl, _⟩
        cases hvalue.symm.trans hother
        rfl

theorem exists_cellValue_of_get? {column : String} {value : Scalar} (h : rowValues t data = .ok row)
    (hvalue : row.get? column = some value) :
    ∃ i : Nat, t.columns[i]? = some column ∧ cellValue t data column i = .ok value := by
  rw [rowValues] at h
  obtain ⟨cells, hcells, h⟩ := bind_eq_ok_iff.1 h
  cases h
  obtain ⟨⟨c, i⟩, hmem, hread⟩ :=
    exists_of_mem_forall₂ (forall₂_of_mapM_ok hcells) (Row.mem_of_get?_ofList hvalue)
  obtain ⟨found, hfound, h⟩ := bind_eq_ok_iff.1 hread
  cases h
  exact ⟨i, List.mk_mem_zipIdx_iff_getElem?.1 hmem, hfound⟩

/-- A row of data that is read, and its key: the text of the value that a cell in the key column
has, which is neither null nor without a text. -/
structure KeyedRow (t : TableSchema) (data : Markdown.DataRow) (input : InputRow) : Prop where
  cells : rowValues t data = .ok input.cells
  span : input.span = data.span
  key : ∃ (i : Nat) (value : Scalar), t.columns[i]? = some t.key ∧
    cellValue t data t.key i = .ok value ∧ input.cells.get? t.key = some value ∧ value ≠ .null ∧
    value.toText = input.key
  key_ne : input.key ≠ ""

/-- The rows of a table, all with different keys. -/
structure KeyedRows (p : Pair) (inputs : List InputRow) : Prop where
  length : inputs.length = p.found.rows.length
  rows : List.Forall₂ (KeyedRow p.declared) p.found.rows inputs
  nodup : (inputs.map InputRow.key).Nodup

/-- The rows that are read have keys that differ from one another and from those before. -/
theorem keyedRows_of_readRows {seen : List String} {rows : List Markdown.DataRow}
    {inputs : List InputRow} (h : readRows t seen rows = .ok inputs) :
    List.Forall₂ (KeyedRow t) rows inputs ∧
      (inputs.map InputRow.key).Nodup ∧ ∀ key ∈ inputs.map InputRow.key, key ∉ seen := by
  induction rows generalizing seen inputs with
  | nil =>
    cases h
    exact ⟨.nil, .nil, nofun⟩
  | cons data rows ih =>
    rw [readRows] at h
    obtain ⟨cells, hcells, h⟩ := bind_eq_ok_iff.1 h
    split at h
    · cases h
    · next key hkey =>
      split at h
      · cases h
      · next hseen =>
        obtain ⟨later, hlater, h⟩ := bind_eq_ok_iff.1 h
        cases h
        obtain ⟨hrows, hnodup⟩ := ih hlater
        obtain ⟨value, hvalue, hnull, rfl, hne⟩ := keyText?_eq_some_iff.1 hkey
        obtain ⟨i, hcolumn, hcell⟩ := exists_cellValue_of_get? hcells hvalue
        refine ⟨.cons ?_ hrows, nodup_cons_of_seen hseen hnodup⟩
        exact ⟨hcells, rfl, ⟨i, value, hcolumn, hcell, hvalue, hnull, rfl⟩, hne⟩

theorem keyedRows_of_inputRows {inputs : List InputRow} (h : inputRows p = .ok inputs) :
    KeyedRows p inputs := by
  obtain ⟨hrows, hnodup, -⟩ := keyedRows_of_readRows h
  exact ⟨hrows.length_eq.symm, hrows, hnodup⟩

theorem KeyedRows.exists_key {inputs : List InputRow} {input : InputRow} (h : KeyedRows p inputs)
    (hinput : input ∈ inputs) :
    ∃ value, input.cells.get? p.declared.key = some value ∧ value ≠ .null ∧
      value.toText = input.key := by
  obtain ⟨data, -, hkeyed⟩ := exists_of_mem_forall₂ h.rows hinput
  obtain ⟨_, value, -, -, hvalue, hnull, htext⟩ := hkeyed.key
  exact ⟨value, hvalue, hnull, htext⟩

end TableDoc.Compilation
