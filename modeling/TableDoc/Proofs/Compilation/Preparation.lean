import TableDoc.Compilation
import TableDoc.Proofs.Compilation.Pairing
import TableDoc.Proofs.Compilation.Rows
import TableDoc.Proofs.Formula.DependencyOrder

/-!
# Tables that are ready to be computed

What is known of a declared table once it has been prepared: it is paired with the only table of its
name (`pair_eq_ok`), its columns are the headers, its rows have the values of the cells (`RowOf`),
and its computed columns are in the order of their dependencies (`ComputedIn`). `prepare_eq_ok` puts
these together.
-/

namespace TableDoc.Compilation

open Formula (Definition Dependencies)

variable {s : Schema} {t : TableSchema} {p : Pair} {found : List Markdown.Table}

/-! ## Computed columns -/

section
variable {name : String} {names : List String} {definitions others : List Definition}
  {taken : Definition}

theorem takeOut?_eq_swapOut? (name : String) (definitions : List Definition) :
    takeOut? name definitions = swapOut? (·.name = name) definitions := rfl

theorem takeOut?_eq_some (h : takeOut? name definitions = some (taken, others)) :
    taken.name = name ∧ (taken :: others).Perm definitions := by
  rw [takeOut?_eq_swapOut?] at h
  obtain ⟨hfind, hperm⟩ := swapOut?_eq_some h
  exact ⟨by simpa using List.find?_some hfind, hperm⟩

theorem takeOut?_isSome (h : name ∈ definitions.map Definition.name) :
    (takeOut? name definitions).isSome := by
  obtain ⟨d, hd, rfl⟩ := List.mem_map.1 h
  rw [takeOut?_eq_swapOut?, isSome_swapOut?, List.find?_isSome]
  exact ⟨d, hd, decide_eq_true rfl⟩

theorem map_name_arrange (hn : names.Nodup)
    (h : ∀ name ∈ names, name ∈ definitions.map Definition.name) :
    (arrange names definitions).map Definition.name = names := by
  induction names generalizing definitions with
  | nil => rfl
  | cons name names ih =>
    obtain ⟨hname, hnames⟩ := List.nodup_cons.1 hn
    obtain ⟨hfirst, hlater⟩ := List.forall_mem_cons.1 h
    obtain ⟨⟨taken, others⟩, htaken⟩ := Option.isSome_iff_exists.1 (takeOut?_isSome hfirst)
    obtain ⟨rfl, hperm⟩ := takeOut?_eq_some htaken
    -- the names are different, so what was taken out is no definition of a later one
    have hothers : ∀ other ∈ names, other ∈ others.map Definition.name := by
      intro other hother
      have hmem := (hperm.map Definition.name).mem_iff.2 (hlater other hother)
      exact (List.mem_cons.1 hmem).resolve_left fun heq => hname (heq ▸ hother)
    rw [arrange, htaken]
    dsimp only
    rw [List.map_cons, ih hnames hothers]

/-- Arranging definitions loses none if all have names. -/
theorem perm_arrange (h : names.Perm (definitions.map Definition.name)) :
    (arrange names definitions).Perm definitions := by
  induction names generalizing definitions with
  | nil => rw [List.map_eq_nil_iff.1 (List.nil_perm.1 h), arrange]
  | cons name names ih =>
    obtain ⟨⟨taken, others⟩, htaken⟩ :=
      Option.isSome_iff_exists.1 (takeOut?_isSome (h.mem_iff.1 List.mem_cons_self))
    obtain ⟨rfl, hperm⟩ := takeOut?_eq_some htaken
    rw [arrange, htaken]
    exact ((ih (h.trans (hperm.map Definition.name).symm).cons_inv).cons taken).trans hperm

end

/-- The names of the computed columns, in the order that is found from what their formulas read. -/
def ComputedIn (t : TableSchema) (order : List String) : Prop :=
  ∃ (definitions : List Definition) (dependencies : Dependencies),
    List.Forall₂ (fun c d => d.name = c.name ∧
      readFormula c.expression = .ok d.formula) t.computed definitions ∧
      Dependencies.build definitions = .ok dependencies ∧ dependencies.order = order

/-- The order of the dependencies has names of definitions only, each once. -/
theorem order_of_build {definitions : List Definition} {dependencies : Dependencies}
    (h : Dependencies.build definitions = .ok dependencies) :
    dependencies.order.Nodup ∧ ∀ name ∈ dependencies.order,
      name ∈ definitions.map Definition.name := by
  rw [Dependencies.build] at h
  obtain ⟨readings, -, h⟩ := bind_eq_ok_iff.1 h
  obtain ⟨order, horder, h⟩ := bind_eq_ok_iff.1 h
  cases h
  obtain ⟨hplaced, -⟩ := (Dependencies.place_ok readings).2 _ _ _ _ order horder
  exact ⟨hplaced.nodup .nil, fun name hn => (hplaced.mem name hn).resolve_left List.not_mem_nil⟩

/-- A table has no column twice, computed ones included. -/
theorem ComputedIn.columns_nodup {order : List String} (h : ComputedIn t order)
    (hcolumns : t.columns.Nodup) (hcomputed : ∀ c ∈ t.computed, c.name ∉ t.columns) :
    (t.columns ++ order).Nodup := by
  obtain ⟨definitions, dependencies, hread, hbuild, rfl⟩ := h
  obtain ⟨hnodup, hmem⟩ := order_of_build hbuild
  refine hcolumns.append hnodup fun column hcolumn horder => ?_
  have hnames : t.computed.map ComputedColumn.name = definitions.map Definition.name :=
    forall₂_map_eq hread fun _ _ hd => hd.1.symm
  have hname := hmem column horder
  rw [← hnames] at hname
  obtain ⟨c, hc, rfl⟩ := List.mem_map.1 hname
  exact hcomputed c hc hcolumn

/-- The formula of the definition is the one of the computed column. -/
def ReadAs (c : ComputedColumn) (d : Definition) : Prop :=
  d.name = c.name ∧ readFormula c.expression = .ok d.formula

theorem readAs_iff {c : ComputedColumn} {d : Definition} {failure : Formula.Error → Diagnostic} :
    ((readFormula c.expression).map (Definition.mk c.name)).mapError failure = .ok d ↔
      ReadAs c d := by
  rw [mapError_eq_ok_iff, ReadAs]
  obtain ⟨name, formula⟩ := d
  rcases hf : readFormula c.expression with e | found
  · exact ⟨nofun, nofun⟩
  · constructor
    · rintro ⟨⟩
      exact ⟨rfl, rfl⟩
    · rintro ⟨rfl, ⟨⟩⟩
      rfl

/-- The plan is made of formulas that can be read, in the order of their dependencies. -/
theorem planComputed_eq_ok_iff {definitions : List Definition} :
    planComputed s t = .ok definitions ↔
      ∃ (read : List Definition) (dependencies : Dependencies),
        List.Forall₂ ReadAs t.computed read ∧ Dependencies.build read = .ok dependencies ∧
        definitions = arrange dependencies.order read := by
  rw [planComputed, bind_eq_ok_iff]
  constructor
  · rintro ⟨read, hread, h⟩
    refine ⟨read, ?_⟩
    split at h
    · next dependencies hbuild =>
      cases h
      exact ⟨dependencies, (forall₂_of_mapM_ok hread).imp fun _ _ => readAs_iff.1, hbuild, rfl⟩
    · cases h
    · cases h
  · rintro ⟨read, dependencies, hread, hbuild, rfl⟩
    refine ⟨read, mapM_ok_of_forall₂ (hread.imp fun _ _ => readAs_iff.2), ?_⟩
    rw [hbuild]
    rfl

theorem planComputed_eq_ok {definitions : List Definition}
    (h : planComputed s t = .ok definitions) :
    ComputedIn t (definitions.map Definition.name) := by
  obtain ⟨read, dependencies, hread, hbuild, rfl⟩ := planComputed_eq_ok_iff.1 h
  obtain ⟨hnodup, hmem⟩ := order_of_build hbuild
  exact ⟨read, dependencies, hread, hbuild, (map_name_arrange hnodup hmem).symm⟩

/-! ## Tables -/

variable [Cell.DateReader]

/-- A declared table that is ready, with the table of the document that it has its rows from. -/
structure Prepared.From (found : List Markdown.Table) (t : TableSchema) (p : Prepared) : Prop where
  name : p.input.name = t.name
  computed : ComputedIn t (p.input.computed.map Definition.name)
  rows : ∃ table ∈ found, found.filter (·.name = t.name) = [table] ∧
    table.headers.map (fun cell => String.ofList cell.text) = t.columns ∧
      List.Forall₂ (fun data input => RowOf t data input.cells) table.rows p.input.rows

/-- A table that is prepared has the declared columns and the rows of the table of its name. -/
theorem prepare_eq_ok {ready : Prepared} (hcolumns : p.declared.columns.Nodup)
    (hmem : p.found ∈ found) (hfound : found.filter (·.name = p.declared.name) = [p.found])
    (h : prepare s p = .ok ready) :
    ready.From found p.declared := by
  rw [prepare] at h
  obtain ⟨_, hheader, h⟩ := bind_eq_ok_iff.1 h
  obtain ⟨rows, hrows, h⟩ := bind_eq_ok_iff.1 h
  obtain ⟨computed, hcomputed, h⟩ := bind_eq_ok_iff.1 h
  obtain ⟨aggregates, -, h⟩ := bind_eq_ok_iff.1 h
  cases h
  rw [checkHeader] at hheader
  obtain ⟨_, hheader, -⟩ := bind_eq_ok_iff.1 hheader
  exact {
    name := rfl
    computed := planComputed_eq_ok hcomputed
    rows := ⟨p.found, hmem, hfound, checkColumns_eq_ok hheader,
      (keyedRows_of_inputRows hrows).rows.imp fun _ _ h => rowOf_of_rowValues hcolumns h.cells⟩ }

end TableDoc.Compilation
