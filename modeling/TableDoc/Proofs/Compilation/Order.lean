import TableDoc.Proofs.Compilation.Preparation
import TableDoc.Proofs.Formula.Printing
import TableDoc.Proofs.Store.Reordering
import TableDoc.Proofs.Store.Requests

/-!
# The order of computed columns

A plan is an arrangement of the definitions that are read (`arranged_of_planComputed`). So no
computed column is read before it is computed (`computed_asks_present`).
-/

namespace TableDoc.Compilation

open Formula (Definition Dependencies Expr)
open Formula.Dependencies (Arranged)
open Store (RowId Progress rowContext runFrom)

variable {schema : Schema} {t : TableSchema} {ds : List Definition}

/-- The plan of the computed columns has them all, in an order in which each comes after the columns
that it reads. -/
theorem arranged_of_planComputed (hn : (t.computed.map ComputedColumn.name).Nodup)
    (h : planComputed schema t = .ok ds) :
    ∃ read, List.Forall₂ ReadAs t.computed read ∧ ds.Perm read ∧ Arranged ds := by
  obtain ⟨read, dependencies, hread, hbuild, rfl⟩ := planComputed_eq_ok_iff.1 h
  have hnames : t.computed.map ComputedColumn.name = read.map Definition.name :=
    forall₂_map_eq hread fun _ _ hd => hd.1.symm
  have hw := Dependencies.WellFormed.of_build (hnames ▸ hn) hbuild
  have hperm := perm_arrange (Dependencies.ordered_of_build hw hbuild).1
  obtain ⟨hnodup, hmem⟩ := order_of_build hbuild
  exact ⟨read, hread, hperm,
    Dependencies.arranged_of_build hw hbuild hperm (map_name_arrange hnodup hmem)⟩

/-- Whenever a column of a row is computed, the columns of its own table that its formula asks for
are there, and what the formula would find in columns that are not there does not matter. -/
theorem computed_asks_present {s : Store} {table : InputTable} {input : InputRow} {id : RowId}
    {depth : Nat} {d : Definition} {row : Row} {p : Progress}
    (hn : (t.computed.map ComputedColumn.name).Nodup)
    (hplan : planComputed schema t = .ok table.computed) (hrow : s.row? id = some (table, input))
    (hcolumns : ∀ input ∈ table.rows, ∀ column ∈ t.columns, input.cells.contains column)
    (h : s.Evaluating depth id (d :: ds) row p) :
    let context := rowContext (s.lookupBy (s.materialize depth)) row
    (∀ name ∈ d.formula.asked context p, name ∈ t.allColumns → row.contains name ∧
      ∃ v, runFrom p ((Expr.identifier name).evaluate context) = (.ok v, p)) ∧
    ∀ resolve : String → Option Scalar,
      (∀ name, row.contains name ∨ name ∉ t.allColumns → resolve name = row.get? name) →
      runFrom p (d.formula.evaluate { context with resolve }) =
        runFrom p (d.formula.evaluate context) := by
  intro context
  obtain ⟨read, hread, hperm, harranged⟩ := arranged_of_planComputed hn hplan
  have hnames : t.computed.map ComputedColumn.name = read.map Definition.name :=
    forall₂_map_eq hread fun _ _ hd => hd.1.symm
  have hinput : input ∈ table.rows := List.mem_of_getElem? (Store.row?_eq_some.1 hrow).2
  have hasked : ∀ name ∈ d.formula.asked context p, name ∈ t.allColumns → row.contains name := by
    intro name hasked hname
    refine h.contains_of_asked hrow harranged ?_ hasked
    refine (List.mem_append.1 hname).imp (hcolumns input hinput name) fun hc => ?_
    exact (hperm.map Definition.name).mem_iff.2 (hnames ▸ hc)
  refine ⟨fun name hmem hname => ?_, fun resolve hresolve => ?_⟩
  · have hrow := hasked name hmem hname
    obtain ⟨v, hv⟩ := Option.isSome_iff_exists.1 hrow
    exact ⟨hrow, v, Formula.runFrom_identifier hv⟩
  · symm
    refine Expr.runFrom_evaluate_congr rfl rfl fun name hmem => (hresolve name ?_).symm
    by_cases hname : name ∈ t.allColumns
    · exact .inl (hasked name hmem hname)
    · exact .inr hname

theorem readFormula_name {name : String} (h : Formula.IsName name) :
    readFormula name = .ok (.identifier name) := by
  have hprints := Formula.Prints.identifier h
  obtain ⟨ts, stop, hlex, hts⟩ := Formula.lexFrom_spaced (Formula.spelled_of_prints hprints) 0
  have hparse : Formula.parse name = .ok (.identifier name) := by
    have hname : name.toList = Formula.spaced [.verbatim .identifier name.toList] :=
      (List.append_nil _).symm
    rw [Formula.parse, Formula.lex, hname, hlex]
    exact Formula.parseTokens_of_derives
      ((Formula.spells_of_prints hprints ts hts).loosen (Formula.Layer.logic_le _)) stop
  rw [readFormula, hparse]
  rfl

/-- A table with a computed column that is declared before the one that it reads. -/
def chained : TableSchema :=
  { name := "t", columns := ["id"], computed := [⟨"last", "next"⟩, ⟨"next", "id"⟩, ⟨"twin", "id"⟩] }

theorem planComputed_chained (schema : Schema) : planComputed schema chained =
    .ok [⟨"next", .identifier "id"⟩, ⟨"last", .identifier "next"⟩, ⟨"twin", .identifier "id"⟩] := by
  have hlast : ReadAs ⟨"last", "next"⟩ ⟨"last", .identifier "next"⟩ :=
    ⟨rfl, readFormula_name ⟨by decide, by decide⟩⟩
  have hnext : ReadAs ⟨"next", "id"⟩ ⟨"next", .identifier "id"⟩ :=
    ⟨rfl, readFormula_name ⟨by decide, by decide⟩⟩
  have htwin : ReadAs ⟨"twin", "id"⟩ ⟨"twin", .identifier "id"⟩ :=
    ⟨rfl, readFormula_name ⟨by decide, by decide⟩⟩
  exact planComputed_eq_ok_iff.2 ⟨_, _, .cons hlast (.cons hnext (.cons htwin .nil)), by cbv, rfl⟩

/-- The table with one row, its computed columns in this order. -/
def chainedStore (ds : List Definition) : Store :=
  ⟨[⟨"t", ["id", "last", "next", "twin"], ds,
    [⟨"a", .ofList [("id", .text "a")], ⟨⟨3, 0⟩, ⟨3, 5⟩⟩⟩]⟩]⟩

theorem computed_asks_present_chained :
    let s :=
      chainedStore [⟨"next", .identifier "id"⟩, ⟨"last", .identifier "next"⟩,
        ⟨"twin", .identifier "id"⟩]
    let row := (Row.ofList [("id", .text "a")]).insert "next" (.text "a")
    let p := s.initial.enter ⟨0, 0⟩
    s.Evaluating 0 ⟨0, 0⟩ [⟨"last", .identifier "next"⟩, ⟨"twin", .identifier "id"⟩] row p ∧
      row.contains "next" ∧
      (Expr.identifier "next").asked (rowContext (s.lookupBy (s.materialize 0)) row) p =
        ["next"] := by
  intro s row p
  have henter : s.Evaluating 0 ⟨0, 0⟩ _ (.ofList [("id", .text "a")]) p :=
    .enter (Store.reached_initial s) rfl rfl
  have h : s.Evaluating 0 ⟨0, 0⟩ [⟨"last", .identifier "next"⟩, ⟨"twin", .identifier "id"⟩] row p :=
    henter.next rfl
  have hpresent :=
    computed_asks_present (t := chained) (by decide)
      (planComputed_chained ⟨"1.0", [chained], 9, {}⟩) rfl (by decide) h
  exact ⟨h, (hpresent.1 "next" List.mem_cons_self (by decide)).1, rfl⟩

/-! ## Declarations in another order -/

variable {computed computed' : List ComputedColumn} {read read' ds' : List Definition}

/-- Declarations in another order are read as definitions in another order. -/
theorem perm_of_readAs (hp : computed.Perm computed') (h : List.Forall₂ ReadAs computed read)
    (h' : List.Forall₂ ReadAs computed' read') : read.Perm read' := by
  have hunique : Relator.RightUnique ReadAs := by
    rintro c ⟨name, formula⟩ ⟨name', formula'⟩ ⟨rfl, hf⟩ ⟨rfl, hf'⟩
    cases hf.symm.trans hf'
    rfl
  exact List.rel_perm_imp hunique h h' hp

/-- Computed columns can be planned whatever the order of their declarations. -/
theorem exists_planComputed_of_perm (hn : (computed.map ComputedColumn.name).Nodup)
    (hp : computed.Perm computed') (h : planComputed schema { t with computed } = .ok ds) :
    ∃ ds', planComputed schema { t with computed := computed' } = .ok ds' := by
  obtain ⟨read, dependencies, hread, hbuild, rfl⟩ := planComputed_eq_ok_iff.1 h
  obtain ⟨read', hread', hperm⟩ := List.perm_comp_forall₂ hp.symm hread
  have hnames : computed.map ComputedColumn.name = read.map Definition.name :=
    forall₂_map_eq hread fun _ _ hd => hd.1.symm
  obtain ⟨dependencies', hbuild'⟩ :=
    (Dependencies.exists_build_iff_of_perm (hnames ▸ hn) hperm.symm).1 ⟨dependencies, hbuild⟩
  exact ⟨_, planComputed_eq_ok_iff.2 ⟨read', dependencies', hread', hbuild', rfl⟩⟩

/-- The order in which computed columns are declared decides neither whether they can be put into an
order of their dependencies, nor whether the rows of a store can be computed, nor what values they
get. -/
theorem values_independent_of_declaration_order (hn : (t.computed.map ComputedColumn.name).Nodup)
    (hp : t.computed.Perm computed) :
    let t' := { t with computed }
    (∀ read read', List.Forall₂ ReadAs t.computed read → List.Forall₂ ReadAs t'.computed read' →
      ((∃ found, Dependencies.build read = .ok found) ↔
        ∃ found, Dependencies.build read' = .ok found)) ∧
    ((∃ ds, planComputed schema t = .ok ds) ↔ ∃ ds', planComputed schema t' = .ok ds') ∧
    ∀ ds ds', planComputed schema t = .ok ds → planComputed schema t' = .ok ds' →
      ∀ (s : Store) (i : Nat),
      let run := runFrom (s.withComputed i ds).initial (s.withComputed i ds).materializeAll
      let run' := runFrom (s.withComputed i ds').initial (s.withComputed i ds').materializeAll
      (run.1 = .ok () ↔ run'.1 = .ok ()) ∧
        (run.1 = .ok () → ∀ id name, (run.2.row id).get? name = (run'.2.row id).get? name) := by
  intro t'
  have hn' : (computed.map ComputedColumn.name).Nodup := (hp.map _).nodup_iff.1 hn
  refine ⟨fun read read' h h' => ?_, ⟨fun ⟨ds, h⟩ => ?_, fun ⟨ds, h⟩ => ?_⟩,
    fun ds ds' h h' s i => ?_⟩
  · have hnames : t.computed.map ComputedColumn.name = read.map Definition.name :=
      forall₂_map_eq h fun _ _ hd => hd.1.symm
    exact Dependencies.exists_build_iff_of_perm (hnames ▸ hn) (perm_of_readAs hp h h')
  · exact exists_planComputed_of_perm hn hp h
  · exact exists_planComputed_of_perm (t := t) hn' hp.symm h
  · obtain ⟨read, hread, hperm, harranged⟩ := arranged_of_planComputed hn h
    obtain ⟨read', hread', hperm', harranged'⟩ := arranged_of_planComputed (t := t') hn' h'
    have hds : ds.Perm ds' := hperm.trans ((perm_of_readAs hp hread hread').trans hperm'.symm)
    have hrun := Store.materializeAll_perm harranged harranged' hds s i
    have hrun' := Store.materializeAll_perm harranged' harranged hds.symm s i
    exact ⟨⟨fun h => (hrun h).1, fun h => (hrun' h).1⟩, fun h => (hrun h).2⟩

theorem planComputed_chained_reverse (schema : Schema) :
    planComputed schema { chained with computed := chained.computed.reverse } =
      .ok [⟨"twin", .identifier "id"⟩, ⟨"next", .identifier "id"⟩,
        ⟨"last", .identifier "next"⟩] := by
  have hlast : ReadAs ⟨"last", "next"⟩ ⟨"last", .identifier "next"⟩ :=
    ⟨rfl, readFormula_name ⟨by decide, by decide⟩⟩
  have hnext : ReadAs ⟨"next", "id"⟩ ⟨"next", .identifier "id"⟩ :=
    ⟨rfl, readFormula_name ⟨by decide, by decide⟩⟩
  have htwin : ReadAs ⟨"twin", "id"⟩ ⟨"twin", .identifier "id"⟩ :=
    ⟨rfl, readFormula_name ⟨by decide, by decide⟩⟩
  exact planComputed_eq_ok_iff.2 ⟨_, _, .cons htwin (.cons hnext (.cons hlast .nil)), by cbv, rfl⟩

theorem values_independent_chained :
    let s := (chainedStore []).withComputed 0
      [⟨"next", .identifier "id"⟩, ⟨"last", .identifier "next"⟩, ⟨"twin", .identifier "id"⟩]
    let s' := (chainedStore []).withComputed 0
      [⟨"twin", .identifier "id"⟩, ⟨"next", .identifier "id"⟩, ⟨"last", .identifier "next"⟩]
    let run := runFrom s.initial s.materializeAll
    let run' := runFrom s'.initial s'.materializeAll
    run.1 = .ok () ∧ run'.1 = .ok () ∧ (run.2.row ⟨0, 0⟩).columns ≠ (run'.2.row ⟨0, 0⟩).columns ∧
      ∀ name, (run.2.row ⟨0, 0⟩).get? name = (run'.2.row ⟨0, 0⟩).get? name := by
  intro s s' run run'
  have hrun : run.1 = .ok () := eq_ok_of_isOk (by decide +kernel)
  have hplan := planComputed_chained ⟨"1.0", [chained], 9, {}⟩
  have hplan' := planComputed_chained_reverse ⟨"1.0", [chained], 9, {}⟩
  obtain ⟨hok, hvalues⟩ := (values_independent_of_declaration_order (t := chained) (by decide)
    (List.reverse_perm _).symm).2.2 _ _ hplan hplan' (chainedStore []) 0
  exact ⟨hrun, hok.1 hrun, by decide +kernel, hvalues hrun ⟨0, 0⟩⟩

end TableDoc.Compilation
