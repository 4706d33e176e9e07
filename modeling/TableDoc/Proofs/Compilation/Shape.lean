import Mathlib
import TableDoc.Cell.Dates
import TableDoc.Proofs.Compilation.Preparation
import TableDoc.Proofs.Markdown.Table
import TableDoc.Proofs.Schema.Names
import TableDoc.Proofs.Store.Completion
import TableDoc.Yaml.Load

/-!
# The shape of results

A document that is compiled has a table for each declared one, with the rows of the only table of
its name in the document, in order: the values of the cells under the declared columns, and then the
computed columns (`compile_shape`). The rows are those of the store once all are done, since
aggregates do not change them (`evaluate_eq_ok`).
-/

namespace TableDoc

namespace Compilation

open Store (Progress Still runFrom runFrom_bind)

variable {s : Schema} {store : Store} {p q : Progress} {prepared : List Prepared}
  {results : List TableResult}

/-- Aggregates are computed from rows that are done, and change none. -/
theorem still_evaluateAggregates (hf : store.Finished p) (table : String)
    (plans : List AggregatePlan) (aggregates : Row) (grouped : List GroupedAggregate) :
    Still p (evaluateAggregates s store table aggregates grouped plans) := by
  induction plans generalizing aggregates grouped with
  | nil => rfl
  | cons plan plans ih =>
    rw [evaluateAggregates]
    split
    · exact ((Store.still_aggregate hf table plan.formula).adapt _).bind fun _ => ih _ _
    · exact ((Store.still_aggregateGroups hf table _ plan.formula).adapt _).bind fun _ => ih _ _

theorem still_tableResult (hf : store.Finished p) (ready : Prepared) :
    Still p (tableResult s store ready) :=
  (still_evaluateAggregates hf _ _ _ _).bind fun _ => rfl

/-- The rows of a result are those of the store. -/
theorem tableResult_eq_ok {ready : Prepared} {result : TableResult} (hf : store.Finished p)
    (h : (runFrom p (tableResult s store ready)).1 = .ok result) :
    result.name = ready.input.name ∧ result.rows = store.rows p ready.input.name := by
  have hstill := still_evaluateAggregates (s := s) hf ready.input.name ready.aggregates ∅ []
  rw [Still] at hstill
  rw [tableResult, runFrom_bind] at h
  rcases hx : runFrom p (evaluateAggregates s store ready.input.name ∅ [] ready.aggregates) with
    ⟨e | v, b⟩ <;>
    rw [hx] at h hstill
  · cases h
  · cases hstill
    cases h
    exact ⟨rfl, rfl⟩

/-- The results are the tables in order, with all rows done. -/
theorem evaluate_eq_ok (h : evaluate s prepared = .ok results) :
    ∃ p, Store.Reached ⟨prepared.map Prepared.input⟩ p ∧
      Store.Finished ⟨prepared.map Prepared.input⟩ p ∧
      List.Forall₂ (fun ready result => result.name = ready.input.name ∧
        result.rows = Store.rows ⟨prepared.map Prepared.input⟩ p ready.input.name)
        prepared results := by
  generalize hstore : (⟨prepared.map Prepared.input⟩ : Store) = store
  have hrun : (runFrom store.initial
      (store.materializeAll >>= fun _ => prepared.mapM (tableResult s store))).1 = .ok results :=
    hstore ▸ h
  rw [runFrom_bind] at hrun
  rcases hall : runFrom store.initial store.materializeAll with ⟨e | u, p⟩ <;> rw [hall] at hrun
  · cases hrun
  obtain ⟨hreached, hfinished⟩ := Store.finished_of_materializeAll_ok hall
  refine ⟨p, hreached, hfinished, ?_⟩
  have hresults := Store.forall₂_of_runFrom_mapM (still_tableResult (s := s) hfinished)
    (Prod.ext hrun rfl : runFrom p (prepared.mapM (tableResult s store)) = (.ok results, _))
  exact hresults.imp fun _ _ h => tableResult_eq_ok hfinished h

/-- Each declared table is prepared from the one table of its name. -/
theorem forall₂_from_of_prepare [Cell.DateReader] {found : List Markdown.Table} {pairs : List Pair}
    (hcolumns : ∀ t ∈ s.tables, t.columns.Nodup) (hpairs : pair s found = .ok pairs)
    (hprepared : pairs.mapM (prepare s) = .ok prepared) :
    (s.tables.map TableSchema.name).Nodup ∧
      List.Forall₂ (fun t (ready : Prepared) => ready.From found t) s.tables prepared := by
  obtain ⟨hdeclared, hnodup, hfound⟩ := pair_eq_ok hpairs
  refine ⟨hnodup, ?_⟩
  rw [← hdeclared, List.forall₂_map_left_iff]
  have hready := (List.forall₂_and_left _ _).2 ⟨fun _ hp => hp, forall₂_of_mapM_ok hprepared⟩
  refine hready.imp fun p ready ⟨hp, h⟩ => ?_
  have hmem : p.declared ∈ s.tables := hdeclared ▸ List.mem_map_of_mem hp
  exact prepare_eq_ok (hcolumns _ hmem) (hfound p hp).1 (hfound p hp).2 h

end Compilation

open Compilation

variable {d : Document} {withFront : Bool} {lines : List (List Char)} {found : List Markdown.Table}
  {t : TableSchema} {order : List String} {data : Markdown.DataRow} {row : Row}

section
variable [Cell.DateReader]

/-- A row of a result has the values of the cells of a row of the document, and then the computed
columns. -/
structure RowShape (t : TableSchema) (order : List String) (data : Markdown.DataRow)
    (row : Row) : Prop where
  columns : row.columns = t.columns ++ order
  value : ∀ (i : Nat) (column : String), t.columns[i]? = some column →
    ∃ cell value, data.cells[i]? = some cell ∧
      Cell.coerce cell.raw (t.columnType? column) t.emptyCells = .ok value ∧
        row.get? column = some value

/-- A table of a result has the rows of the only table of its name in the document. -/
structure TableShape (lines : List (List Char)) (found : List Markdown.Table) (t : TableSchema)
    (result : TableResult) : Prop where
  name : result.name = t.name
  rows : ∃ table order, found.filter (·.name = t.name) = [table] ∧ table.Located lines ∧
    table.headers.map (fun cell => String.ofList cell.text) = t.columns ∧ ComputedIn t order ∧
      List.Forall₂ (RowShape t order) table.rows result.rows

/-- A row that is done has the shape of its table. -/
theorem rowShape_of_complete {table : InputTable} {input : InputRow}
    (hwidth : data.cells.length = t.columns.length) (hdata : RowOf t data input.cells)
    (hrow : Store.Complete table input row) :
    RowShape t (table.computed.map Formula.Definition.name) data row where
  columns := by rw [hrow.columns, hdata.columns]
  value i column hi := by
    obtain ⟨value, hvalue, hget⟩ := hdata.value i column hi
    have hlt : i < data.cells.length := hwidth ▸ (List.getElem?_eq_some_iff.1 hi).1
    have hcell := List.getElem?_eq_getElem hlt
    rw [cellValue, hcell] at hvalue
    refine ⟨_, value, hcell, mapError_eq_ok_iff.1 hvalue, ?_⟩
    exact Row.get?_eq_some_iff.2 (hrow.cells.subset (Row.get?_eq_some_iff.1 hget))

/-- In the store of a schema no table has a column twice. -/
theorem columnsDistinct_of_from {tables : List TableSchema} {prepared : List Prepared}
    (hcolumns : ∀ t ∈ tables, t.columns.Nodup ∧ ∀ c ∈ t.computed, c.name ∉ t.columns)
    (hfrom : List.Forall₂ (fun t (ready : Prepared) => ready.From found t) tables prepared) :
    Store.ColumnsDistinct ⟨prepared.map Prepared.input⟩ := by
  intro table htable input hinput
  obtain ⟨ready, hready, rfl⟩ := List.mem_map.1 htable
  obtain ⟨t, ht, hfrom⟩ := exists_of_mem_forall₂ hfrom hready
  obtain ⟨_, -, -, -, hrows⟩ := hfrom.rows
  obtain ⟨data, -, hdata⟩ := exists_of_mem_forall₂ hrows hinput
  rw [hdata.columns]
  exact hfrom.computed.columns_nodup (hcolumns t ht).1 (hcolumns t ht).2

/-- A table has the declared shape once its rows are complete. -/
theorem tableShape_of_from {ready : Prepared} {result : TableResult}
    (hlocated : ∀ table ∈ found, table.Located lines) (hready : ready.From found t)
    (hname : result.name = ready.input.name)
    (hcomplete : List.Forall₂ (Store.Complete ready.input) ready.input.rows result.rows) :
    TableShape lines found t result := by
  obtain ⟨table, htable, honly, hheaders, hdata⟩ := hready.rows
  have hlocated := hlocated table htable
  refine ⟨hname.trans hready.name, table, _, honly, hlocated, hheaders, hready.computed, ?_⟩
  have hdata := (List.forall₂_and_left _ _).2 ⟨fun _ hrow => hrow, hdata⟩
  refine forall₂_trans hdata hcomplete fun data input row ⟨hmem, hdata⟩ hrow => ?_
  obtain ⟨i, hi⟩ := List.getElem?_of_mem hmem
  refine rowShape_of_complete ?_ hdata hrow
  -- the row has as many cells as the header, and the headers are the columns
  rw [(hlocated.rows i data hi).width, ← hheaders, List.length_map]

/-- A document that is compiled has a table for each declared one, in order. Its rows are those of
the only table of its name in the document, whose headers are the declared columns. -/
theorem compile_shape [Yaml.Loader] {result : Result} (h : compile d withFront = .ok result) :
    Schema.ofDocument d = .ok result.schema ∧ ∃ found, Markdown.tables d = .ok found ∧
      List.Forall₂ (TableShape d.lines found) result.schema.tables result.tables := by
  rw [compile] at h
  obtain ⟨schema, hschema, h⟩ := bind_eq_ok_iff.1 h
  obtain ⟨found, hfound, h⟩ := bind_eq_ok_iff.1 h
  obtain ⟨pairs, hpairs, h⟩ := bind_eq_ok_iff.1 h
  obtain ⟨prepared, hprepared, h⟩ := bind_eq_ok_iff.1 h
  obtain ⟨tables, htables, h⟩ := bind_eq_ok_iff.1 h
  obtain ⟨body, -, h⟩ := bind_eq_ok_iff.1 h
  cases h
  refine ⟨hschema, found, hfound, ?_⟩
  obtain ⟨root, -, hroot⟩ := exists_ofValue_of_ofDocument hschema
  have hcolumns := columns_of_ofRoot hroot
  obtain ⟨hnames, hfrom⟩ := forall₂_from_of_prepare (fun t ht => (hcolumns t ht).1) hpairs hprepared
  have hdistinct := columnsDistinct_of_from hcolumns hfrom
  have hinputs : ((prepared.map Prepared.input).map InputTable.name).Nodup := by
    have heq :
        schema.tables.map TableSchema.name = prepared.map (InputTable.name ∘ Prepared.input) :=
      forall₂_map_eq hfrom fun _ _ hready => hready.name.symm
    rw [List.map_map, ← heq]
    exact hnames
  obtain ⟨p, hreached, hfinished, hresults⟩ := evaluate_eq_ok htables
  have hresults := (List.forall₂_and_left _ _).2 ⟨fun _ hready => hready, hresults⟩
  refine forall₂_trans hfrom hresults fun t ready result hready ⟨hmem, hname, hrows⟩ => ?_
  refine tableShape_of_from (Markdown.located_of_tables hfound) hready hname ?_
  rw [hrows]
  exact Store.forall₂_complete_rows hdistinct hinputs (List.mem_map_of_mem hmem) hreached hfinished

end

/-- A document with one row and a column that is copied. -/
def copied : Document where
  lines :=
    ["---", "'mdxtab': '1.0'", "'tables':", "  't':", "    'columns': ['id']", "    'computed':",
      "      'copy': 'id'", "---", "# t", "| id |", "|----|", "| a |"].map String.toList

set_option maxRecDepth 100000 in
theorem compile_copied : (compile copied true).map (fun result =>
    result.tables.map fun table => (table.name, table.rows.map Row.columns)) =
      .ok [("t", [["id", "copy"]])] := by
  cbv

theorem compile_shape_copied : ∃ result, compile copied true = .ok result ∧
    result.tables.map (fun table => (table.name, table.rows.map Row.columns)) =
      [("t", [["id", "copy"]])] ∧ ∃ found, Markdown.tables copied = .ok found ∧
        List.Forall₂ (TableShape copied.lines found) result.schema.tables result.tables := by
  have hcopied := compile_copied
  rcases h : compile copied true with failure | result <;> rw [h] at hcopied
  · cases hcopied
  · exact ⟨result, rfl, Except.ok.inj hcopied, (compile_shape h).2⟩

end TableDoc
