import TableDoc.Proofs.Row
import TableDoc.Proofs.Store.Run
import TableDoc.Store.Aggregate

/-!
# Repeated computations

A computation of rows that is repeated from where it ended gives the same and changes nothing
(`materializeAll_twice`). If it succeeded, what it found is done and is found again (`settled`). If
it failed, every row on the way to the failure has kept the columns that it had; they come out the
same when they are computed again (`compute_again`), and the formula that failed fails again, at the
same point.
-/

namespace TableDoc.Store

open Formula (Definition Error Expr Simulation)

variable {s : Store} {id : RowId} {row row' : Row} {table : InputTable} {input : InputRow}
  {p q p' : Progress} {ds : List Definition}

/-! ## Columns of computed rows -/

/-- The computed columns of a table have other names than each other and than the declared columns.
-/
def ColumnsDistinct (s : Store) : Prop :=
  ∀ table ∈ s.tables, ∀ input ∈ table.rows,
    (input.cells.columns ++ table.computed.map Definition.name).Nodup

theorem ColumnsDistinct.nodup (hs : s.ColumnsDistinct) (hr : s.row? id = some (table, input)) :
    (input.cells.columns ++ table.computed.map Definition.name).Nodup :=
  let ⟨ht, hi⟩ := row?_eq_some.1 hr
  hs table (List.mem_of_getElem? ht) input (List.mem_of_getElem? hi)

theorem Inserted.get?_eq {column : String} (h : Inserted ds row row')
    (hc : column ∉ ds.map Definition.name) : row'.get? column = row.get? column := by
  induction h with
  | nil => rfl
  | cons _ ih =>
    rw [List.map_cons, List.mem_cons, not_or] at hc
    rw [ih hc.2, Row.get?_insert, if_neg hc.1]

theorem Inserted.get?_of_nodup {column : String} {value : Scalar} (h : Inserted ds row row')
    (hn : (row.columns ++ ds.map Definition.name).Nodup) (hv : row.get? column = some value) :
    row'.get? column = some value := by
  rw [h.get?_eq, hv]
  have hmem : column ∈ row.columns := by
    rw [← Row.contains_iff_mem_columns, Row.contains, hv]
    rfl
  exact fun hc => (List.nodup_append.1 hn).2.2 column hmem column hc rfl

theorem nodup_columns_insert {d : Definition} {value : Scalar}
    (hn : (row.columns ++ (d :: ds).map Definition.name).Nodup) :
    ((row.insert d.name value).columns ++ ds.map Definition.name).Nodup := by
  have hd : d.name ∉ row.columns := fun h =>
    (List.nodup_append.1 hn).2.2 d.name h d.name List.mem_cons_self rfl
  rw [Row.columns_insert_of_notMem hd, List.append_assoc]
  exact hn

/-! ## Computations that succeeded -/

/-- What succeeds on the left succeeds again on the right, at any later point, and changes nothing.
-/
def settled (s : Store) : Simulation (StateM Progress) (StateM Progress) :=
  s.later (fun q y v => runFrom q y = (.ok v, q)) (fun _ _ => rfl)
    fun hx hf => by rw [runFrom_bind, hx]; exact hf

/-- What a lookup found is found again later. -/
theorem settled_lookupBy (s : Store) (depth : Nat) (name : String) (key : Scalar) :
    s.settled.rel (s.lookupBy (s.materialize depth) name key)
      (s.lookupBy (s.materialize depth) name key) := by
  refine ⟨tame_lookupBy s depth name key, fun p v p' hp h q hq => ?_⟩
  rw [runFrom_lookupBy] at h ⊢
  rcases hf : s.find name key with e | id <;> rw [hf] at h
  · cases h
  obtain ⟨table, input, hr, -⟩ := row?_of_find hf
  rcases hm : runFrom p (s.materialize depth id) with ⟨d | u, p₁⟩ <;>
    simp only [hm] at h <;> cases h
  obtain ⟨row, hd⟩ := done_of_materialize_ok hp hr hm
  simp only [runFrom_materialize_of_done (a := q) (hq.done hd), now_progress, Progress.row, hd,
    hq.done hd]

/-- A formula that gave a value gives it again in a later row with the same columns and more. -/
theorem settled_evaluate (depth : Nat) (e : Expr)
    (h : ∀ {column value}, row.get? column = some value → row'.get? column = some value) :
    s.settled.rel (e.evaluate (rowContext (s.lookupBy (s.materialize depth)) row))
      (e.evaluate (rowContext (s.lookupBy (s.materialize depth)) row')) := by
  refine Simulation.Agree.evaluate (R := s.settled)
    ⟨fun name => ?_, settled_lookupBy s depth, fun _ _ => s.settled.throw _⟩ e
  rw [Expr.value_identifier, Expr.value_identifier]
  simp only [rowContext]
  cases hv : row.get? name with
  | none =>
    refine ⟨.of_same fun _ => rfl, ?_⟩
    nofun
  | some v =>
    rw [h hv]
    exact s.settled.pure _

/-! ## Computations that failed -/

/-- From where it ended the computation gives the same again, and changes nothing. -/
structure Repeats (s : Store) {ε α : Type} (x : ExceptT ε (StateM Progress) α) : Prop where
  maintains : s.Maintains s.Fresh x
  ok : ∀ {p v p'}, s.Reached p → runFrom p x = (.ok v, p') → ∀ q, p'.Advance q →
    runFrom q x = (.ok v, q)
  error : ∀ {p e p'}, s.Reached p → s.Fresh p → runFrom p x = (.error e, p') →
    runFrom p' x = (.error e, p')

section
variable {ε α β : Type}

theorem Repeats.pure (v : α) : s.Repeats (Pure.pure v : ExceptT ε (StateM Progress) α) where
  maintains := .pure v
  ok := by rintro p v p' - h q -; cases h; rfl
  error := nofun

theorem Repeats.throw (e : ε) :
    s.Repeats (MonadExcept.throw e : ExceptT ε (StateM Progress) α) where
  maintains := .throw e
  ok := nofun
  error := by rintro p e p' - - h; cases h; rfl

theorem Repeats.bind {x : ExceptT ε (StateM Progress) α} {f : α → ExceptT ε (StateM Progress) β}
    (hx : s.Repeats x) (hf : ∀ v, s.Repeats (f v)) : s.Repeats (x >>= f) where
  maintains := hx.maintains.bind fun v => (hf v).maintains
  ok {p w p'} hp h q hq := by
    have hr := (hx.maintains.1 p hp).1
    rw [runFrom_bind] at h ⊢
    rcases hb : runFrom p x with ⟨e | v, p₁⟩ <;> rw [hb] at h hr
    · cases h
    · have ha := ((hf v).maintains.1 p₁ hr).2
      rw [show runFrom p₁ (f v) = _ from h] at ha
      rw [hx.ok hp hb q (ha.trans hq)]
      exact (hf v).ok hr h q hq
  error {p e p'} hp hfresh h := by
    have hr := (hx.maintains.1 p hp).1
    rw [runFrom_bind] at h ⊢
    rcases hb : runFrom p x with ⟨e | v, p₁⟩ <;> rw [hb] at h hr
    · cases h
      rw [hx.error hp hfresh hb]
    · have ha := ((hf v).maintains.1 p₁ hr).2
      rw [show runFrom p₁ (f v) = _ from h] at ha
      rw [hx.ok hp hb p' ha]
      exact (hf v).error hr (hx.maintains.2 p v p₁ hp hfresh hb) h

end

variable {depth : Nat}

/-- A lookup that failed fails again. -/
theorem repeats_lookupBy (h : ∀ id, s.Repeats (s.materialize depth id)) (name : String)
    (key : Scalar) : s.Repeats (s.lookupBy (s.materialize depth) name key) where
  maintains := maintains_lookupBy (fun id => (h id).maintains) name key
  ok hp hx := (settled_lookupBy s depth name key).2 _ _ _ hp hx
  error {p e p'} hp hfresh hx := by
    rw [runFrom_lookupBy] at hx ⊢
    rcases hf : s.find name key with e' | id <;> rw [hf] at hx
    · cases hx
      rfl
    rcases hm : runFrom p (s.materialize depth id) with ⟨d | u, p₁⟩ <;> simp only [hm] at hx <;>
      cases hx
    simp only [(h id).error hp hfresh hm]

theorem repeats_evaluate (h : ∀ id, s.Repeats (s.materialize depth id)) (row : Row) (e : Expr) :
    s.Repeats (e.evaluate (rowContext (s.lookupBy (s.materialize depth)) row)) :=
  Expr.evaluate_of (P := s.Repeats) .pure .throw .bind (repeats_lookupBy h) (fun _ _ => .throw _) e

/-- A computation of columns that failed ends in the same way from the row and the point that it
came to. -/
theorem compute_again {failed : String × Error} (h : ∀ id, s.Repeats (s.materialize depth id))
    (hp : s.Reached p) (hfresh : s.Fresh p) (hn : (row.columns ++ ds.map Definition.name).Nodup)
    (hc : compute (m := StateM Progress) (s.lookupBy (s.materialize depth)) ds row p =
      ((row', some failed), q)) :
    compute (m := StateM Progress) (s.lookupBy (s.materialize depth)) ds row' q =
      ((row', some failed), q) := by
  induction ds generalizing row p with
  | nil => cases hc
  | cons d ds ih =>
    have he := repeats_evaluate h row d.formula
    have hr := (he.maintains.1 p hp).1
    rw [compute_cons] at hc ⊢
    rcases hb : runFrom p (d.formula.evaluate (rowContext (s.lookupBy (s.materialize depth)) row))
      with ⟨e | v, p₁⟩ <;> rw [hb] at hc hr
    · cases hc
      rw [he.error hp hfresh hb]
    · replace hc : compute (m := StateM Progress) _ ds (row.insert d.name v) p₁ = _ := hc
      have hn' : ((row.insert d.name v).columns ++ ds.map Definition.name).Nodup :=
        nodup_columns_insert hn
      obtain ⟨ds', hpre, -, hi⟩ := inserted_compute (s.lookupBy (s.materialize depth)) ds
        (row.insert d.name v) p₁
      have ha := (reached_compute depth ds (row.insert d.name v) hr).2
      rw [hc] at hi ha
      have hpre' : ds'.map Definition.name <+: ds.map Definition.name := hpre.map _
      -- the value is in the row that was left behind, and so is all that it was computed from
      have hv : row'.get? d.name = some v := by
        refine hi.get?_of_nodup (hn'.sublist (hpre'.sublist.append_left _)) ?_
        rw [Row.get?_insert, if_pos rfl]
      have hsub {column value} (hv : row.get? column = some value) :
          row'.get? column = some value :=
        (Inserted.cons hi).get?_of_nodup (hn.sublist ((hpre'.sublist.cons_cons _).append_left _)) hv
      rw [(settled_evaluate depth d.formula hsub).2 p v p₁ hp hb q ha]
      change compute (m := StateM Progress) _ ds (row'.insert d.name v) q = _
      rw [Row.insert_eq_self hv]
      exact ih hr (he.maintains.2 p v p₁ hp hfresh hb) hn' hc

theorem enter_leave (hpath : q.path = id :: rest) (hv : q.slot? id = some .visiting) (slot : Slot) :
    (q.leave id slot).enter id = q := by
  obtain ⟨slots, path⟩ := q
  cases hpath
  simp only [Progress.enter, Progress.leave, Progress.set, List.tail_cons, Progress.mk.injEq,
    and_true, List.modify_modify_eq]
  refine List.ext_getElem? fun i => ?_
  rw [List.getElem?_modify]
  split
  · next hi =>
    subst hi
    rcases hs : slots[id.table]? with _ | found
    · rfl
    · simp only [Progress.slot?, hs, Option.bind_some] at hv
      obtain ⟨hlt, hv⟩ := List.getElem?_eq_some_iff.1 hv
      change some ((found.set id.row slot).set id.row .visiting) = some found
      rw [List.set_set, ← hv, List.set_getElem_self]
  · exact id_map _

/-- A row that failed fails again, and nothing changes any more. -/
theorem repeats_materialize (hs : s.ColumnsDistinct) (depth : Nat) (id : RowId) :
    s.Repeats (s.materialize depth id) := by
  induction depth using Nat.strongRecOn generalizing id with
  | ind depth ih =>
    refine ⟨maintains_fresh s depth id, fun {p u p'} hp h q hq => ?_,
      fun {p e p'} hp hfresh h => ?_⟩
    · rcases hr : s.row? id with _ | ⟨table, input⟩
      · exact runFrom_materialize_of_row?_eq_none hr
      · obtain ⟨row, hd⟩ := done_of_materialize_ok hp hr h
        exact runFrom_materialize_of_done (a := q) (hq.done hd)
    rcases hr : s.row? id with _ | ⟨table, input⟩
    · rw [runFrom_materialize_of_row?_eq_none hr] at h
      cases h
    rcases of_materialize_error hr h with
      ⟨-, rfl, -⟩ | ⟨d, row, row', column, error, q, rfl, hpend, hc, rfl, rfl⟩
    · exact h
    cases hfresh id table input row hr hpend
    have hagain :=
      compute_again (ih d d.lt_succ_self) (hp.enter hpend) (hfresh.enter id) (hs.nodup hr) hc
    obtain ⟨-, ha⟩ := reached_compute d table.computed input.cells (hp.enter hpend)
    rw [hc] at ha
    have hv : q.slot? id = some .visiting := by
      rw [ha.visiting, Progress.slot?_enter, if_pos rfl, hpend]
      rfl
    have hpend' : (q.leave id (.pending row')).slot? id = some (.pending row') := by
      rw [Progress.slot?_leave, if_pos rfl, hv]
      rfl
    rw [runFrom_materialize_succ (a := q.leave id (.pending row')) hr hpend', change_progress,
      enter_leave ha.path hv, hagain]
    rfl

theorem repeats_forM (hs : s.ColumnsDistinct) (depth : Nat) (visits : List RowId) :
    s.Repeats (visits.forM (s.materialize depth)) := by
  induction visits with
  | nil => exact .pure PUnit.unit
  | cons id visits ih => exact (repeats_materialize hs depth id).bind fun _ => ih

/-- All rows computed a second time give the same result, and nothing changes. -/
theorem runFrom_materializeAll_again (hs : s.ColumnsDistinct) :
    let first := runFrom s.initial (s.materializeAll (m := StateM Progress))
    runFrom first.2 s.materializeAll = first := by
  intro first
  have hr := repeats_forM hs s.size s.ids
  rcases h : first with ⟨e | u, p⟩
  · exact hr.error (reached_initial s) (fresh_initial s) h
  · exact hr.ok (reached_initial s) h p (.refl p)

/-! ## Aggregates of rows that are done -/

section
variable {depth : Nat}

/-- A computation that changes nothing from a point on. -/
def Still (p : Progress) {ε α : Type} (x : ExceptT ε (StateM Progress) α) : Prop :=
  (runFrom p x).2 = p

theorem Still.pure {ε α : Type} (v : α) :
    Still p (Pure.pure v : ExceptT ε (StateM Progress) α) := rfl

theorem Still.lift {ε α : Type} (x : Except ε α) :
    Still p (liftM x : ExceptT ε (StateM Progress) α) := by
  rw [Still, runFrom_lift]

theorem Still.bind {ε α β : Type} {x : ExceptT ε (StateM Progress) α}
    {f : α → ExceptT ε (StateM Progress) β} (hx : Still p x) (hf : ∀ v, Still p (f v)) :
    Still p (x >>= f) := by
  rw [Still] at hx ⊢
  rw [runFrom_bind]
  rcases hb : runFrom p x with ⟨e | v, q⟩ <;> rw [hb] at hx <;> cases hx
  · rfl
  · exact hf v

theorem Still.mapM {ε α β : Type} {f : α → ExceptT ε (StateM Progress) β} (hf : ∀ a, Still p (f a))
    (as : List α) : Still p (as.mapM f) := by
  induction as with
  | nil => rfl
  | cons a as ih =>
    rw [List.mapM_cons]
    exact (hf a).bind fun _ => ih.bind fun _ => rfl

/-- All rows of the store are done. -/
def Finished (s : Store) (p : Progress) : Prop :=
  ∀ id, (s.row? id).isSome → ∃ row, p.slot? id = some (.done row)

variable (hp : s.Finished p)
include hp

theorem still_materialize (depth : Nat) (id : RowId) : Still p (s.materialize depth id) := by
  rcases hr : s.row? id with _ | found
  · rw [Still, runFrom_materialize_of_row?_eq_none hr]
  · obtain ⟨row, hd⟩ := hp id (by rw [hr]; rfl)
    rw [Still, runFrom_materialize_of_done (a := p) hd]

/-- Once all rows are done, lookups change nothing. -/
theorem still_lookup (name : String) (key : Scalar) : Still p (s.lookup name key) := by
  rw [Still, lookup, runFrom_lookupBy]
  rcases s.find name key with e | id
  · rfl
  have h := still_materialize hp s.size id
  rw [Still] at h
  rcases hm : runFrom p (s.materialize s.size id) with ⟨d | u, q⟩ <;> rw [hm] at h <;>
    simp only [hm, h]

/-- Once all rows are done, formulas of aggregates change nothing. -/
theorem still_evaluate (columns : List String) (rows : List RowId) (e : Expr) :
    Still p (e.evaluate (s.aggregateContext columns rows)) := by
  refine Expr.evaluate_of (P := Still p) .pure (fun _ => rfl) .bind (still_lookup hp)
    (fun f column => ?_) e
  simp only [aggregateContext]
  split
  · rfl
  · exact Still.bind (x := get) rfl fun _ => .lift _

theorem still_aggregate (name : String) (formula : Expr) : Still p (s.aggregate name formula) := by
  rw [aggregate]
  exact .bind (.lift _) fun found => still_evaluate hp found.1 found.2 formula

theorem still_aggregateGroups (name column : String) (formula : Expr) :
    Still p (s.aggregateGroups name column formula) := by
  rw [aggregateGroups]
  exact .bind (.lift _) fun found => Still.bind (x := get) rfl fun _ =>
    .mapM (fun _ => (still_evaluate hp _ _ formula).bind fun _ => .pure _) _

end

end TableDoc.Store
