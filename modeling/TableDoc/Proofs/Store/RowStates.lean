import Mathlib.Data.List.Forall2
import TableDoc.Proofs.Store.Repetition

/-!
# States of rows

What holds at every point of every call of `materializeAll`, however lookups are nested and whatever
fails (`Consistent`): the path has just the rows that are being computed, each once and in the order
in which they were begun; a row that is done has all its columns and stays as it is; a lookup gives
only rows that are done. Between calls no row is being computed, and further calls change nothing
(`materializeAll_consistent`).
-/

namespace TableDoc.Store

open Formula (Definition Error Expr)

variable {s : Store} {id : RowId} {row row' : Row} {table : InputTable} {input : InputRow}
  {p q : Progress} {past points : List Progress} {out : List Row} {ds : List Definition}
  {names all pre : List String} {d : Definition} {v : Scalar}

/-! ## Columns of rows -/

/-- The row has its declared columns as they were given, and then the columns `names`. -/
structure Filled (input : InputRow) (names : List String) (row : Row) : Prop where
  cells : input.cells.cells <+: row.cells
  columns : row.columns = input.cells.columns ++ names

theorem filled_cells (input : InputRow) : Filled input [] input.cells :=
  ⟨List.prefix_rfl, (List.append_nil _).symm⟩

/-- The next column is a new one, unless the row was computed that far before. -/
theorem Filled.insert (h : Filled input names row) (hall : (input.cells.columns ++ all).Nodup)
    (hnames : names <+: all) (hpre : pre <+: names) (hd : pre ++ [d.name] <+: all) :
    ∃ names', Filled input names' (row.insert d.name v) ∧ names' <+: all ∧
      pre ++ [d.name] <+: names' := by
  obtain ⟨-, hnodup, hdisj⟩ := List.nodup_append.1 hall
  have hmem : d.name ∈ all := hd.subset (by simp)
  have hinput : d.name ∉ input.cells.columns := fun hi => hdisj _ hi _ hmem rfl
  have hcells : input.cells.cells <+: (row.insert d.name v).cells :=
    Row.prefix_insert h.cells hinput
  rcases List.prefix_or_prefix_of_prefix hd hnames with hle | hle
  · refine ⟨names, ⟨hcells, ?_⟩, hnames, hle⟩
    rw [Row.columns_insert, if_pos, h.columns]
    rw [h.columns]
    exact List.mem_append_right _ (hle.subset (by simp))
  · rcases List.prefix_concat_iff.1 hle with heq | hle
    · refine ⟨names, ⟨hcells, ?_⟩, hnames, heq ▸ List.prefix_rfl⟩
      rw [Row.columns_insert, if_pos, h.columns]
      rw [h.columns, heq]
      simp
    · obtain rfl := hpre.eq_of_length_le hle.length_le
      refine ⟨pre ++ [d.name], ⟨hcells, ?_⟩, hd, List.prefix_rfl⟩
      have hnew : d.name ∉ row.columns := by
        rw [h.columns, List.mem_append, not_or]
        refine ⟨hinput, fun hi => ?_⟩
        exact (List.nodup_append.1 (hnodup.sublist hd.sublist)).2.2 _ hi _
          (List.mem_singleton_self _) rfl
      rw [Row.columns_insert_of_notMem hnew, h.columns, List.append_assoc]

/-- A row goes on to be filled with its columns in their order. -/
theorem Filled.inserted (hi : Inserted ds row row') (h : Filled input names row)
    (hall : (input.cells.columns ++ all).Nodup) (hnames : names <+: all) (hpre : pre <+: names)
    (hds : pre ++ ds.map Definition.name <+: all) :
    ∃ names', Filled input names' row' ∧ names' <+: all ∧
      pre ++ ds.map Definition.name <+: names' := by
  induction hi generalizing pre names with
  | nil => exact ⟨names, h, hnames, by simpa using hpre⟩
  | cons _ ih =>
    rw [List.map_cons, List.append_cons] at hds ⊢
    have hd := (List.prefix_append _ _).trans hds
    obtain ⟨names', h', hnames', hpre'⟩ := h.insert hall hnames hpre hd
    exact ih h' hnames' hpre' hds

/-- The row has the declared columns and the first computed ones. -/
def Begun (table : InputTable) (input : InputRow) (row : Row) : Prop :=
  ∃ names, names <+: table.computed.map Definition.name ∧ Filled input names row

/-- The row has the declared columns and all computed ones. -/
def Complete (table : InputTable) (input : InputRow) (row : Row) : Prop :=
  Filled input (table.computed.map Definition.name) row

theorem Begun.inserted (h : Begun table input row) (hi : Inserted ds row row')
    (hall : (input.cells.columns ++ table.computed.map Definition.name).Nodup)
    (hds : ds <+: table.computed) : Begun table input row' := by
  obtain ⟨names, hnames, hf⟩ := h
  obtain ⟨names', hf', hnames', -⟩ := hf.inserted hi hall hnames List.nil_prefix (hds.map _)
  exact ⟨names', hnames', hf'⟩

/-- A row that has got all its computed columns is complete. -/
theorem Begun.complete (h : Begun table input row) (hi : Inserted table.computed row row')
    (hall : (input.cells.columns ++ table.computed.map Definition.name).Nodup) :
    Complete table input row' := by
  obtain ⟨names, hnames, hf⟩ := h
  obtain ⟨names', hf', hnames', hle⟩ := hf.inserted hi hall hnames List.nil_prefix List.prefix_rfl
  obtain rfl := hnames'.eq_of_length_le hle.length_le
  exact hf'

/-- Which columns the rows have that are pending, done, or out to be computed. -/
structure Shaped (s : Store) (p : Progress) (out : List Row) : Prop where
  pending : ∀ {id table input row}, s.row? id = some (table, input) →
    p.slot? id = some (.pending row) → Begun table input row
  done : ∀ {id table input row}, s.row? id = some (table, input) →
    p.slot? id = some (.done row) → Complete table input row
  out : List.Forall₂ (fun id row => ∀ {table input}, s.row? id = some (table, input) →
    Begun table input row) p.path out

/-- At every point of a run rows are pending, begun or complete as their slots say. -/
theorem Run.shaped (hs : s.ColumnsDistinct) (h : s.Run points out) :
    ∀ p ∈ points.head?, s.Shaped p out := by
  intro p hp
  have hrows : s.Rows Begun Complete p out :=
    h.rows (fun _ => ⟨[], List.nil_prefix, filled_cells _⟩) (fun hr hb hds hi =>
      hb.inserted hi (hs.nodup hr) hds) (fun hr hb hi => hb.complete hi (hs.nodup hr)) p hp
  exact ⟨hrows.pending, hrows.done, hrows.out⟩

/-! ## The path -/

/-- The row is being computed. -/
def Progress.visits (p : Progress) (id : RowId) : Bool :=
  match p.slot? id with
  | some .visiting => true
  | _ => false

theorem Progress.visits_iff : p.visits id ↔ p.slot? id = some .visiting := by
  rw [visits]
  split
  · next h => simp [h]
  · next h => simpa using h

/-- The rows that are being computed, the one that was begun last first, as the states of the rows
show it: rows that were being computed at an earlier point and still are come after those that were
not. -/
def begun (s : Store) : List Progress → List RowId
  | [] => []
  | p :: past =>
    s.ids.filter (fun id => p.visits id ∧ id ∉ begun s past) ++ (begun s past).filter p.visits

/-- The path is the order in which rows are begun, also when one more is. -/
theorem Sound.begun_enter (hs : s.Sound p) (hp : p.slot? id = some (.pending row))
    (hpath : p.path = s.begun points) : (p.enter id).path = s.begun (p.enter id :: points) := by
  have hq := hs.enter hp
  have hid : id ∈ s.ids := hs.mem_ids_of_slot? hp
  have hnew : s.ids.filter (fun other => (p.enter id).visits other ∧ other ∉ p.path) =
      s.ids.filter (· == id) := by
    refine List.filter_congr fun other _ => Bool.eq_iff_iff.2 ?_
    rw [decide_eq_true_iff, beq_iff_eq, Progress.visits_iff, ← hq.mem_path]
    constructor
    · rintro ⟨hmem, hne⟩
      exact (List.mem_cons.1 hmem).resolve_right hne
    · rintro rfl
      exact ⟨List.mem_cons_self, (List.nodup_cons.1 hq.nodup).1⟩
  have hkept : p.path.filter (p.enter id).visits = p.path := by
    refine List.filter_eq_self.2 fun other ho => ?_
    rw [Progress.visits_iff, ← hq.mem_path]
    exact List.mem_cons_of_mem _ ho
  rw [begun, ← hpath, hnew, hkept, List.filter_beq, List.count_eq_one_of_mem s.nodup_ids hid]
  rfl

/-- The path stays that order when a row is left. -/
theorem Sound.begun_leave (hs : s.Sound p) (hp : p.path = id :: rest) (hslot : slot ≠ .visiting)
    (hpath : p.path = s.begun points) :
    (p.leave id slot).path = s.begun (p.leave id slot :: points) := by
  have hq := hs.leave hp hslot
  have hrest : (p.leave id slot).path = rest := congrArg List.tail hp
  have hn := hs.nodup
  rw [hp, List.nodup_cons] at hn
  rw [begun, ← hpath, hp, List.filter_eq_nil_iff.2, List.nil_append, List.filter_cons_of_neg, hrest]
  · refine (List.filter_eq_self.2 fun other ho => ?_).symm
    rw [Progress.visits_iff, ← hq.mem_path, hrest]
    exact ho
  · rw [Progress.visits_iff, ← hq.mem_path, hrest]
    exact hn.1
  · intro other _
    rw [decide_eq_true_iff, Progress.visits_iff, ← hq.mem_path, hrest]
    exact fun ⟨hmem, hne⟩ => hne (List.mem_cons_of_mem _ hmem)

/-- At every point of a run the path has the rows in the order in which they were begun. -/
theorem Run.begun_eq (h : s.Run points out) : ∀ p ∈ points.head?, p.path = s.begun points := by
  induction h with
  | start =>
    rintro _ ⟨⟩
    rw [begun, begun, List.filter_nil, List.append_nil, List.filter_eq_nil_iff.2]
    · rfl
    · intro id _
      rw [decide_eq_true_iff, Progress.visits_iff, slot?_initial]
      cases s.row? id <;> simp
  | enter hrun hp ih =>
    rintro _ ⟨⟩
    exact (hrun.sound _ rfl).begun_enter hp (ih _ rfl)
  | finish hrun hpath _ _ ih | abandon hrun hpath _ _ _ ih =>
    rintro _ ⟨⟩
    exact (hrun.sound _ rfl).begun_leave hpath nofun (ih _ rfl)

/-! ## Points of runs -/

/-- What was recorded up to an earlier point is a run itself. -/
theorem Run.of_suffix (h : s.Run points out) (hp : p :: past <:+ points) :
    ∃ out, s.Run (p :: past) out := by
  induction h with
  | start =>
    obtain ⟨rfl, rfl⟩ : p = s.initial ∧ past = [] := by
      rcases List.suffix_cons_iff.1 hp with h | h
      · simpa using h
      · simpa using h.length_le
    exact ⟨[], .start⟩
  | enter hrun hpend ih =>
    rcases List.suffix_cons_iff.1 hp with h | h
    · exact ⟨_, h ▸ hrun.enter hpend⟩
    · exact ih h
  | finish hrun hpath hr hi ih =>
    rcases List.suffix_cons_iff.1 hp with h | h
    · exact ⟨_, h ▸ hrun.finish hpath hr hi⟩
    · exact ih h
  | abandon hrun hpath hr hds hi ih =>
    rcases List.suffix_cons_iff.1 hp with h | h
    · exact ⟨_, h ▸ hrun.abandon hpath hr hds hi⟩
    · exact ih h

/-- Rows that are done in `p` are so in `q`, with the same columns. -/
def Progress.Retains (q p : Progress) : Prop :=
  ∀ id row, p.slot? id = some (.done row) → q.slot? id = some (.done row)

theorem Progress.retains_set (slot : Slot) (h : ∀ row, p.slot? id ≠ some (.done row)) :
    (p.set id slot).Retains p := by
  intro other row hd
  rw [slot?_set, if_neg]
  · exact hd
  · rintro rfl
    exact h row hd

theorem pairwise_retains_cons (h : (p :: past).Pairwise Progress.Retains) (hq : q.Retains p) :
    (q :: p :: past).Pairwise Progress.Retains := by
  refine List.pairwise_cons.2 ⟨fun r hr => ?_, h⟩
  rcases List.mem_cons.1 hr with rfl | hr
  · exact hq
  · exact fun id row hd => hq id row ((List.pairwise_cons.1 h).1 r hr id row hd)

/-- A row that is done stays as it is. -/
theorem Run.pairwise_retains (h : s.Run points out) : points.Pairwise Progress.Retains := by
  induction h with
  | start => exact List.pairwise_singleton _ _
  | enter _ hp ih =>
    refine pairwise_retains_cons ih (Progress.retains_set .visiting fun row hd => ?_)
    rw [hp] at hd
    cases hd
  | finish hrun hpath _ _ ih | abandon hrun hpath _ _ _ ih =>
    refine pairwise_retains_cons ih (Progress.retains_set _ fun row hd => ?_)
    have hv := ((hrun.sound _ rfl).mem_path _).1 (hpath ▸ List.mem_cons_self)
    rw [hv] at hd
    cases hd

/-- What holds at a point of a run, with the earlier points `past`. -/
structure Consistent (s : Store) (p : Progress) (past : List Progress) : Prop where
  mem_path : ∀ id, id ∈ p.path ↔ p.slot? id = some .visiting
  nodup : p.path.Nodup
  path_eq : p.path = s.begun (p :: past)
  complete : ∀ {id table input row}, s.row? id = some (table, input) →
    p.slot? id = some (.done row) → Complete table input row
  retains : ∀ q ∈ past, p.Retains q
  lookup : ∀ {depth name key row q},
    runFrom p (s.lookupBy (s.materialize depth) name key) = (.ok row, q) →
    ∃ id table input, s.find name key = .ok id ∧ s.row? id = some (table, input) ∧
    q.slot? id = some (.done row) ∧ Complete table input row

/-- Every point of a run is consistent with those before it. -/
theorem Run.consistent (hs : s.ColumnsDistinct) (h : s.Run (p :: past) out) :
    s.Consistent p past where
  mem_path := (h.sound p rfl).mem_path
  nodup := (h.sound p rfl).nodup
  path_eq := h.begun_eq p rfl
  complete := (h.shaped hs p rfl).done
  retains := (List.pairwise_cons.1 h.pairwise_retains).1
  lookup {depth name key row q} hl := by
    have hp : s.Reached p := ⟨past, out, h⟩
    obtain ⟨past', out', hq⟩ : s.Reached q := by
      have := (tame_lookupBy s depth name key p hp).1
      rwa [hl] at this
    rw [runFrom_lookupBy] at hl
    rcases hf : s.find name key with e | id <;> rw [hf] at hl
    · cases hl
    obtain ⟨table, input, hr, -⟩ := row?_of_find hf
    rcases hm : runFrom p (s.materialize depth id) with ⟨e | u, p₁⟩ <;> simp only [hm] at hl <;>
      cases hl
    obtain ⟨row, hd⟩ := done_of_materialize_ok hp hr hm
    have hrow : (Keeps.now q).row id = row := by simp [Progress.row, hd, Slot.row]
    rw [hrow]
    exact ⟨id, table, input, rfl, hr, hd, (hq.shaped hs q rfl).done hr hd⟩

/-! ## Calls -/

/-- Where some calls of `materializeAll` end that begin with the declared columns, with all points
of these calls. -/
def recording (s : Store) : Nat → History
  | 0 => ⟨s.initial, []⟩
  | n + 1 => (runFrom (recording s n) s.materializeAll).2

theorem run_recording (s : Store) (n : Nat) :
    s.Run (s.recording n).points [] ∧ s.initial.Advance (s.recording n).now := by
  induction n with
  | zero => exact ⟨.start, .refl _⟩
  | succ n ih =>
    obtain ⟨hrun, ha⟩ := forM_extends s s.size s.ids (s.recording n) [] ih.1
    exact ⟨hrun, ih.2.trans ha⟩

/-- What every call gives, and where it ends. -/
theorem runFrom_recording (hs : s.ColumnsDistinct) (n : Nat) :
    let first := runFrom s.initial (s.materializeAll (m := StateM Progress))
    (runFrom (s.recording n) s.materializeAll).1 = first.1 ∧
      (s.recording (n + 1)).now = first.2 := by
  intro first
  have hcall : ∀ k, runFrom (s.recording k).now (s.materializeAll (m := StateM Progress)) = first →
      (runFrom (s.recording k) s.materializeAll).1 = first.1 ∧
        (s.recording (k + 1)).now = first.2 := by
    intro k hk
    have he : runFrom (s.recording k).now (s.materializeAll (m := StateM Progress)) = _ :=
      Erases.forM (erases_materialize s s.size) s.ids (s.recording k)
    rw [hk] at he
    exact ⟨(congrArg Prod.fst he).symm, (congrArg Prod.snd he).symm⟩
  induction n with
  | zero => exact hcall 0 rfl
  | succ n ih =>
    refine hcall (n + 1) ?_
    rw [ih.2]
    exact runFrom_materializeAll_again hs

/-- At every point of every call the states of the rows and the path are as `Consistent` says.
Between calls no row is being computed; all calls give the same, the later ones without a change.
Once the rows have been computed, aggregates change nothing. -/
theorem materializeAll_consistent (s : Store) (hs : s.ColumnsDistinct) :
    let first := runFrom s.initial (s.materializeAll (m := StateM Progress))
    (∀ n p past, p :: past <:+ (s.recording n).points → s.Consistent p past) ∧
    (∀ n, (s.recording n).now.path = [] ∧ ∀ id, (s.recording n).now.slot? id ≠ some .visiting) ∧
    (∀ n, (runFrom (s.recording n) s.materializeAll).1 = first.1 ∧
      (s.recording (n + 1)).now = first.2) ∧
    runFrom first.2 s.materializeAll = first ∧
    (first.1 = .ok () → ∀ name formula, (runFrom first.2 (s.aggregate name formula)).2 = first.2 ∧
      ∀ column, (runFrom first.2 (s.aggregateGroups name column formula)).2 = first.2) := by
  intro first
  refine ⟨fun n p past hp => ?_, fun n => ?_, runFrom_recording hs, runFrom_materializeAll_again hs,
    fun hok name formula => ?_⟩
  · obtain ⟨out, hrun⟩ := (run_recording s n).1.of_suffix hp
    exact hrun.consistent hs
  · obtain ⟨hrun, ha⟩ := run_recording s n
    have hpath : (s.recording n).now.path = [] := ha.path
    refine ⟨hpath, fun id hv => ?_⟩
    have hmem := ((hrun.sound _ rfl).mem_path id).2 hv
    rw [hpath] at hmem
    cases hmem
  · have hfin : s.Finished first.2 := by
      intro id hr
      obtain ⟨⟨table, input⟩, hr⟩ := Option.isSome_iff_exists.1 hr
      exact done_of_forM_ok (reached_initial s) (Prod.ext hok rfl) (mem_ids.2 (by rw [hr]; rfl)) hr
    exact ⟨still_aggregate hfin name formula,
      fun column => still_aggregateGroups hfin name column formula⟩

/-- Two rows that look each other up. -/
def ring : Store :=
  let start : Span := ⟨⟨0, 0⟩, ⟨0, 0⟩⟩
  let far : Expr := .member (.lookup (.identifier "stop") (.identifier "next")) "far"
  ⟨[⟨"stop", ["id", "next", "here", "far"], [⟨"here", .identifier "id"⟩, ⟨"far", far⟩],
    [⟨"a", .ofList [("id", .text "a"), ("next", .text "b")], start⟩,
      ⟨"b", .ofList [("id", .text "b"), ("next", .text "a")], start⟩]⟩]⟩

theorem ring_again : ring.ColumnsDistinct ∧
    (runFrom ring.initial (ring.materializeAll (m := StateM Progress))).1.isOk = false ∧
    (ring.recording 2).now.path = [] ∧
    runFrom (runFrom ring.initial ring.materializeAll).2 ring.materializeAll =
      runFrom ring.initial (ring.materializeAll (m := StateM Progress)) := by
  have hs : ring.ColumnsDistinct := by unfold ColumnsDistinct; decide
  have hcalls := (materializeAll_consistent ring hs).2.1
  have hagain := (materializeAll_consistent ring hs).2.2.2.1
  exact ⟨hs, by decide +kernel, (hcalls 2).1, hagain⟩

end TableDoc.Store
