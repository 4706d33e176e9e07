import Mathlib
import TableDoc.Cell.Dates
import TableDoc.Compilation
import TableDoc.Proofs.Compilation.Preparation
import TableDoc.Proofs.Formula.Errors
import TableDoc.Proofs.Interpolation.Places
import TableDoc.Proofs.Markdown.Spans
import TableDoc.Proofs.Schema.Places
import TableDoc.Proofs.Store.Errors
import TableDoc.Yaml.Load

/-!
# Places of failures

Once the schema of a document has been read, every pass of the compiler fails with a table and a
place (`Diagnostic.Placed`): the place of a cell, a row or a header, or else that of the
declaration, where the schema knows it. Only the last pass fails at references in the text, and then
the place is that of the reference (`placed_or_refersTo_of_compile`).
-/

namespace TableDoc

namespace Compilation

open Formula (Definition Dependencies Error FailsReading Raises)
open Store (raises_adapt raises_iff_runFrom raises_mapM runFrom)

variable {lines : List (List Char)} {s : Schema} {t : TableSchema} {p : Pair}
  {found : List Markdown.Table}

/-! ## Tables and headers -/

/-- A fault of a table is placed if its place is inside the lines, and is there if that of the table
is. -/
theorem Fault.placed_toDiagnostic {name : String} {span : Option Span} (f : Fault)
    (hinside : ∀ place ∈ span, place.Inside lines)
    (hspan : (s.tableSpan? name).isSome → span.isSome) :
    (f.toDiagnostic name span).Placed lines s := by
  have hplace : (f.toDiagnostic name span).span = span := by cases f <;> rfl
  refine ⟨by cases f <;> nofun, ?_, name, by cases f <;> rfl, ?_⟩
  · rw [hplace]
    exact hinside
  · rw [hplace]
    exact hspan

theorem Fault.placed_toDiagnostic_some {name : String} {place : Span} (f : Fault)
    (h : place.Inside lines) :
    (f.toDiagnostic name (some place)).Placed lines s :=
  f.placed_toDiagnostic (by rintro _ ⟨⟩; exact h) fun _ => rfl

theorem Fault.placed_toDiagnostic_declared (f : Fault) (hs : s.places.Inside lines)
    (name : String) :
    (f.toDiagnostic name (s.tableSpan? name)).Placed lines s :=
  f.placed_toDiagnostic (Schema.inside_tableSpan? hs) id

/-- The failure of an undeclared or repeated table is placed. -/
theorem placed_of_checkNames {seen : List String} (hfound : ∀ table ∈ found, table.Inside lines) :
    FailsAs (Diagnostic.Placed lines s) (checkNames s seen found) := by
  induction found generalizing seen with
  | nil => exact .ok ()
  | cons table found ih =>
    obtain ⟨htable, hfound⟩ := List.forall_mem_cons.1 hfound
    rw [checkNames]
    split
    · exact .error (Fault.undeclared.placed_toDiagnostic_some htable.span)
    · split
      · exact .error (Fault.repeated.placed_toDiagnostic_some htable.span)
      · exact ih hfound

/-- The failure of a missing table is placed. -/
theorem placed_of_pairAll {ts : List TableSchema} (hs : s.places.Inside lines) :
    FailsAs (Diagnostic.Placed lines s) (pairAll s found ts) := by
  induction ts generalizing found with
  | nil => exact .ok []
  | cons t ts ih =>
    rw [pairAll]
    split
    · exact .error (Fault.missing.placed_toDiagnostic_declared hs t.name)
    · exact ih.bind fun pairs _ => .ok _

theorem placed_of_pair (hs : s.places.Inside lines) (hfound : ∀ table ∈ found, table.Inside lines) :
    FailsAs (Diagnostic.Placed lines s) (pair s found) :=
  (placed_of_checkNames hfound).bind fun _ _ => placed_of_pairAll hs

/-- The failure of a header that is not the declared one is placed. -/
theorem placed_of_checkColumns (hspan : p.found.headerSpan.Inside lines)
    {headers : List Markdown.Cell}
    (hheaders : ∀ c ∈ headers, (Span.within p.found.headerLine c.start c.stop).Inside lines)
    (columns : List String) :
    FailsAs (Diagnostic.Placed lines s) (checkColumns p headers columns) := by
  induction headers generalizing columns with
  | nil =>
    cases columns with
    | nil => exact .ok ()
    | cons c columns => exact .error ((Fault.missingHeader c).placed_toDiagnostic_some hspan)
  | cons header headers ih =>
    obtain ⟨hheader, hheaders⟩ := List.forall_mem_cons.1 hheaders
    cases columns with
    | nil => exact .error ((Fault.extraHeader _).placed_toDiagnostic_some hheader)
    | cons c columns =>
      rw [checkColumns]
      split
      · exact ih hheaders columns
      · exact .error ((Fault.wrongHeader c _).placed_toDiagnostic_some hheader)

theorem placed_of_checkHeader (hs : s.places.Inside lines) (hp : p.found.Inside lines) :
    FailsAs (Diagnostic.Placed lines s) (checkHeader s p) := by
  refine (placed_of_checkColumns hp.headerSpan hp.headers _).bind fun _ _ => ?_
  split
  · exact .error ((Fault.keyNotColumn _).placed_toDiagnostic_declared hs _)
  · exact .ok ()

/-! ## Rows -/

/-- The failure of a cell that cannot be read is placed. -/
theorem placed_of_rowValues [Cell.DateReader] {row : Markdown.DataRow} (hrow : row.Inside lines) :
    FailsAs (Diagnostic.Placed lines s) (rowValues t row) := by
  refine FailsAs.bind (.mapM fun (column, i) _ =>
    FailsAs.bind (.mapError fun fault _ => ?_) fun _ _ => .ok _) fun cells _ => .ok _
  refine (Diagnostic.complete_of_span ?_ rfl rfl (hrow.cellSpan i)).placed
  cases fault <;> nofun

/-- The rows of a table, or the place of one that has no value or key. -/
theorem placed_of_readRows [Cell.DateReader] {seen : List String} {rows : List Markdown.DataRow}
    (hrows : ∀ row ∈ rows, row.Inside lines) :
    (∀ inputs, readRows t seen rows = .ok inputs → ∀ input ∈ inputs, input.span.Inside lines) ∧
      FailsAs (Diagnostic.Placed lines s) (readRows t seen rows) := by
  induction rows generalizing seen with
  | nil => exact ⟨by rintro _ ⟨⟩; nofun, .ok []⟩
  | cons row rows ih =>
    obtain ⟨hrow, hrows⟩ := List.forall_mem_cons.1 hrows
    rw [readRows]
    constructor
    · intro inputs h
      obtain ⟨cells, -, h⟩ := bind_eq_ok_iff.1 h
      split at h
      · cases h
      · split at h
        · cases h
        · obtain ⟨later, hlater, h⟩ := bind_eq_ok_iff.1 h
          cases h
          exact List.forall_mem_cons.2 ⟨hrow.span, (ih hrows).1 later hlater⟩
    · refine (placed_of_rowValues hrow).bind fun cells _ => ?_
      split
      · exact .error ((Fault.missingKey _).placed_toDiagnostic_some hrow.span)
      · next key _ =>
        split
        · exact .error ((Fault.repeatedKey key).placed_toDiagnostic_some hrow.span)
        · exact (ih hrows).2.bind fun later _ => .ok _

/-! ## Formulas -/

theorem sound_of_ofReading {e : Error} (h : e.ofReading) : e.Sound lines := by
  refine Error.sound_of_isOwn ?_
  cases e with
  | inner d => cases h
  | _ => rfl

theorem placed_computedFailure (hs : s.places.Inside lines) {e : Error} (he : e.Sound lines)
    (table column : String) :
    (computedFailure s table column e).Placed lines s :=
  he.placed table (Schema.inside_entrySpan? hs) Schema.isSome_entrySpan? rfl rfl rfl

theorem placed_aggregateFailure (hs : s.places.Inside lines) {d : Diagnostic} (hd : d.Sound lines)
    (table aggregate : String) : (aggregateFailure s table aggregate d).Placed lines s :=
  hd.placed table (Schema.inside_entrySpan? hs) Schema.isSome_entrySpan? rfl rfl rfl

/-- The failure of the formula of a computed column is placed. -/
theorem placed_of_planComputed (hs : s.places.Inside lines) :
    FailsAs (Diagnostic.Placed lines s) (planComputed s t) := by
  have hread (c : ComputedColumn) : FailsAs (Diagnostic.Placed lines s)
      (((readFormula c.expression).map (Definition.mk c.name)).mapError
        (computedFailure s t.name c.name)) :=
    ((failsReading_readFormula _).mono fun e he =>
      placed_computedFailure hs (sound_of_ofReading he) _ _).map.mapError
  refine FailsAs.bind (.mapM fun c _ => hread c) fun definitions hdefinitions => ?_
  have hreferences : ∀ d ∈ definitions, ∃ refs, d.formula.references = .ok refs := by
    intro d hd
    obtain ⟨c, -, hc⟩ := exists_of_mem_forall₂ (forall₂_of_mapM_ok hdefinitions) hd
    exact exists_references_of_readFormula (readAs_iff.1 hc).2
  rcases hbuild : Dependencies.build definitions with e | dependencies
  · obtain ⟨column, path, rfl⟩ := Dependencies.failsAs_build hreferences e hbuild
    exact .error (placed_computedFailure hs (Error.sound_of_isOwn rfl) t.name column)
  · exact .ok _

/-- The failure of the formula of an aggregate is placed. -/
theorem placed_of_planAggregate (hs : s.places.Inside lines) (a : AggregateDefinition) :
    FailsAs (Diagnostic.Placed lines s) (planAggregate s t a) := by
  have hread : FailsAs (Diagnostic.Placed lines s)
      ((readFormula a.expression).mapError fun error =>
        aggregateFailure s t.name a.name error.toDiagnostic) :=
    ((failsReading_readFormula _).mono fun e he =>
      placed_aggregateFailure hs (sound_of_ofReading he) _ _).mapError
  refine hread.bind fun formula _ => ?_
  split
  · exact .ok _
  · split
    · exact .ok _
    · refine .error ⟨?_, Schema.inside_entrySpan? hs, t.name, rfl, Schema.isSome_entrySpan?⟩
      rintro ⟨⟩

/-- All that can be wrong with a table before its rows are computed is placed. -/
theorem placed_of_prepare [Cell.DateReader] (hs : s.places.Inside lines)
    (hp : p.found.Inside lines) :
    FailsAs (Diagnostic.Placed lines s) (prepare s p) :=
  (placed_of_checkHeader hs hp).bind fun _ _ => (placed_of_readRows hp.rows).2.bind fun _ _ =>
    (placed_of_planComputed hs).bind fun _ _ =>
      FailsAs.bind (.mapM fun a _ => placed_of_planAggregate hs a) fun _ _ => .ok _

/-! ## Results -/

/-- What is ready to be computed has the rows of the tables. -/
theorem inside_of_prepare [Cell.DateReader] {pairs : List Pair} {prepared : List Prepared}
    (hpairs : ∀ p ∈ pairs, p.found.Inside lines) (h : pairs.mapM (prepare s) = .ok prepared) :
    Store.Inside lines ⟨prepared.map Prepared.input⟩ := by
  intro table htable
  obtain ⟨ready, hready, rfl⟩ := List.mem_map.1 htable
  obtain ⟨p, hp, h⟩ := exists_of_mem_forall₂ (forall₂_of_mapM_ok h) hready
  obtain ⟨_, -, h⟩ := bind_eq_ok_iff.1 h
  obtain ⟨rows, hrows, h⟩ := bind_eq_ok_iff.1 h
  obtain ⟨computed, -, h⟩ := bind_eq_ok_iff.1 h
  obtain ⟨aggregates, -, h⟩ := bind_eq_ok_iff.1 h
  cases h
  exact (placed_of_readRows (s := s) (hpairs p hp).rows).1 rows hrows

variable {store : Store}

/-- The failure of an aggregate without a value is placed. -/
theorem raises_evaluateAggregates (hs : s.places.Inside lines) (hstore : store.Inside lines)
    (table : String) (plans : List AggregatePlan) (aggregates : Row)
    (grouped : List GroupedAggregate) :
    Raises (Diagnostic.Placed lines s)
      (evaluateAggregates s store table aggregates grouped plans) := by
  induction plans generalizing aggregates grouped with
  | nil => exact .pure _
  | cons plan plans ih =>
    have hfailure (e : Error) (he : e.Sound lines) :
        (aggregateFailure s table plan.name e.toDiagnostic).Placed lines s :=
      placed_aggregateFailure hs he table plan.name
    rw [evaluateAggregates]
    split
    · exact (raises_adapt (Store.raises_aggregate hstore table plan.formula) hfailure).bind
        fun _ => ih _ _
    · exact (raises_adapt (Store.raises_aggregateGroups hstore table _ plan.formula) hfailure).bind
        fun _ => ih _ _

theorem raises_tableResult (hs : s.places.Inside lines) (hstore : store.Inside lines)
    (ready : Prepared) :
    Raises (Diagnostic.Placed lines s) (tableResult s store ready) :=
  (raises_evaluateAggregates hs hstore _ _ _ _).bind fun _ => Store.raises_get.bind fun _ => .pure _

/-- All that can go wrong while values are computed is placed. -/
theorem placed_of_evaluate {prepared : List Prepared} (hs : s.places.Inside lines)
    (hstore : Store.Inside lines ⟨prepared.map Prepared.input⟩) :
    FailsAs (Diagnostic.Placed lines s) (evaluate s prepared) := by
  generalize hinput : (⟨prepared.map Prepared.input⟩ : Store) = store at hstore
  have hrun : FailsAs (Diagnostic.Placed lines s) (runFrom store.initial
      (store.materializeAll >>= fun _ => prepared.mapM (tableResult s store))).1 := by
    have hall := Store.complete_of_materializeAll_error hstore
    rw [Store.runFrom_bind]
    rcases hm : runFrom store.initial store.materializeAll with ⟨d | u, q⟩ <;> rw [hm] at hall
    · exact .error (hall d rfl).placed
    · exact raises_iff_runFrom.1 (raises_mapM fun ready _ => raises_tableResult hs hstore ready) q
  subst hinput
  exact hrun

/-- The tables of a document with this schema, with all rows and aggregates. -/
def results [Cell.DateReader] (s : Schema) (d : Document) :
    Except Diagnostic (List TableResult) := do
  let found ← Markdown.tables d
  let pairs ← pair s found
  let prepared ← pairs.mapM (prepare s)
  evaluate s prepared

/-- All that can be wrong with the tables of a document is placed. -/
theorem placed_of_results [Cell.DateReader] {d : Document} (hs : s.places.Inside d.lines) :
    FailsAs (Diagnostic.Placed d.lines s) (results s d) := by
  obtain ⟨hfound, htables⟩ := Markdown.inside_of_tables (d := d)
  refine (htables.mono fun _ h => h.placed).bind fun found hok => ?_
  refine (placed_of_pair hs (hfound found hok)).bind fun pairs hpairs => ?_
  have hinside : ∀ p ∈ pairs, p.found.Inside d.lines :=
    fun p hp => hfound found hok _ ((pair_eq_ok hpairs).2.2 p hp).1
  refine FailsAs.bind (.mapM fun p hp => placed_of_prepare hs (hinside p hp))
    fun prepared hprepared => ?_
  exact placed_of_evaluate hs (inside_of_prepare hinside hprepared)

theorem compile_eq [Cell.DateReader] [Yaml.Loader] (d : Document) (withFront : Bool) :
    compile d withFront =
      Schema.ofDocument d >>= fun s => results s d >>= fun tables =>
        (interpolate tables s.frontEnd (d.bodyLines s.frontEnd)).map fun body =>
          ⟨s, tables, .ofList ((if withFront then d.front s.frontEnd else []) ++ body)⟩ := by
  simp only [compile, results, bind_assoc]
  rfl

end Compilation

open Compilation
open Segment (IsReference Scan)

variable {d : Document} {s : Schema} {withFront : Bool} {failure : Diagnostic}

theorem Diagnostic.RefersTo.inside {lines : List (List Char)} {tables : List TableResult}
    (h : failure.RefersTo lines tables) : ∀ span ∈ failure.span, span.Inside lines := by
  cases h with
  | mk hline hscan hfirst =>
    rintro _ ⟨⟩
    obtain ⟨after, rfl⟩ := hfirst.exists_line_eq hscan
    refine Span.inside_within hline (Nat.le_add_right _ _) ?_
    rw [List.length_append, List.length_append]
    exact Nat.le_add_right _ _

/-- After the schema, either a table is at fault or a reference in the text. -/
theorem placed_or_refersTo_of_compile [Cell.DateReader] [Yaml.Loader]
    (hs : Schema.ofDocument d = .ok s) :
    FailsAs (fun failure => failure.Placed d.lines s ∨
      ∃ tables, results s d = .ok tables ∧ failure.RefersTo d.lines tables)
        (compile d withFront) := by
  rw [compile_eq, hs]
  obtain ⟨hplaces, -⟩ := Schema.inside_of_ofDocument hs
  refine ((placed_of_results hplaces).mono fun _ => .inl).bind fun tables htables => ?_
  exact ((refersTo_of_interpolate d s.frontEnd).mono fun _ h => .inr ⟨tables, htables, h⟩).map

/-- A document whose schema can be read fails with a table, and with a place if the schema knows
where this table is declared. A place is a stretch of a line of the document. At a reference in the
text it is the reference with its braces, the first one of its line that has no value. -/
theorem compile_failure_placed [Cell.DateReader] [Yaml.Loader] (hs : Schema.ofDocument d = .ok s)
    (h : compile d withFront = .error failure) :
    (∃ name, failure.table = some name ∧ ((s.tableSpan? name).isSome → failure.span.isSome)) ∧
      (∀ span ∈ failure.span, span.Inside d.lines) ∧
      (failure.code = .aggregateReference → ∃ span line source target fault tables segs before,
        failure = fault.toDiagnostic target span ∧ d.lines[span.start.line]? = some line ∧
        (line.drop span.start.character).take (span.stop.character - span.start.character) =
          source ∧
        IsReference source target ∧ results s d = .ok tables ∧ Scan line segs ∧
        FirstFailure tables segs before source target fault ∧
        (before.flatMap Segment.source).length = span.start.character) := by
  rcases placed_or_refersTo_of_compile hs failure h with hplaced | ⟨tables, htables, hrefers⟩
  · exact ⟨hplaced.table, hplaced.inside, fun hcode => absurd hcode hplaced.code⟩
  · have hinside := hrefers.inside
    cases hrefers with
    | @mk n line source segs before target fault hline hscan hfirst =>
      refine ⟨⟨_, rfl, fun _ => rfl⟩, hinside,
        fun _ => ⟨_, line, source, target, fault, tables, segs, before, rfl, hline, ?_,
          hscan.isReference hfirst.mem, htables, hscan, hfirst, rfl⟩⟩
      obtain ⟨after, rfl⟩ := hfirst.exists_line_eq hscan
      dsimp only [Span.within]
      rw [List.append_assoc, List.drop_left, Nat.add_sub_cancel_left, List.take_left]

/-- A document with a reference to an aggregate that is not declared. -/
def dangling : Document where
  lines := ["---", "'mdxtab': '1.0'", "'tables':", "  't':", "    'columns': ['id']", "---",
    "Sum: \x7b\x7b t.x \x7d\x7d", "# t", "| id |", "|----|", "| a |"].map String.toList

/-- The schema of `dangling`. -/
def danglingSchema : Schema where
  version := "1.0"
  tables := [{ name := "t", columns := ["id"] }]
  frontEnd := 5
  places := { tables := [("t", .within 3 0 6)] }

set_option maxRecDepth 100000 in
theorem ofDocument_dangling : Schema.ofDocument dangling = .ok danglingSchema := by
  cbv

set_option maxRecDepth 100000 in
theorem tables_dangling :
    Markdown.tables dangling =
      .ok [⟨"t", some (.within 7 0 3), 8, .within 8 0 6, [⟨[' ', 'i', 'd', ' '], 1, 5⟩],
        [⟨[⟨[' ', 'a', ' '], 1, 4⟩], 10, 5⟩]⟩] := by
  cbv

set_option maxRecDepth 100000 in
theorem results_dangling :
    results danglingSchema dangling = .ok [⟨"t", [.ofList [("id", .text "a")]], ∅, []⟩] := by
  rw [results, tables_dangling]
  cbv

theorem compile_dangling : compile dangling false =
    .error (Reference.Fault.unknown.toDiagnostic ⟨"t", "x", none⟩ (.within 6 5 14)) := by
  have hsegments : segments "Sum: \x7b\x7b t.x \x7d\x7d".toList =
      ("Sum: ".toList.map fun c => .literal [c]) ++
        [.reference "\x7b\x7b t.x \x7d\x7d".toList ⟨"t", "x", none⟩] := by
    cbv
  have hempty : segments [] = [] := by rw [segments]
  have hbody :
      dangling.bodyLines 5 =
        [] :: "Sum: \x7b\x7b t.x \x7d\x7d".toList :: dangling.lines.drop 7 := rfl
  rw [compile_eq, ofDocument_dangling]
  change results danglingSchema dangling >>= _ = _
  rw [results_dangling]
  change (interpolate _ 5 (dangling.bodyLines 5)).map _ = _
  rw [hbody, interpolate, interpolateLines_cons, interpolateLine, hempty, interpolateLines_cons,
    interpolateLine, hsegments]
  rfl

theorem compile_failure_placed_dangling : Schema.ofDocument dangling = .ok danglingSchema ∧
    ∃ failure, compile dangling false = .error failure ∧ failure.table = some "t" ∧
      danglingSchema.tableSpan? "t" = some (.within 3 0 6) ∧ failure.span = some (.within 6 5 14) ∧
      (∀ span ∈ failure.span, span.Inside dangling.lines) ∧
      ∃ span line target, failure.span = some span ∧ dangling.lines[span.start.line]? = some line ∧
        IsReference
          ((line.drop span.start.character).take (span.stop.character - span.start.character))
          target := by
  obtain ⟨-, hinside, hreference⟩ := compile_failure_placed ofDocument_dangling compile_dangling
  obtain ⟨span, line, _, target, fault, -, -, -, hfailure, hline, rfl, hsource, -⟩ := hreference rfl
  exact ⟨ofDocument_dangling, _, compile_dangling, rfl, rfl, rfl, hinside, span, line, target,
    congrArg Diagnostic.span hfailure, hline, hsource⟩

end TableDoc
