import TableDoc.Proofs.Diagnostic
import TableDoc.Proofs.Store.Lookups
import TableDoc.Proofs.Store.RowStates

/-!
# Calls under way

While all rows are computed, a row is called for by the sweep or by a lookup in the formula of
another row that is being computed. A `Stack` is a chain of such calls, each made for a lookup of
the next; the path of the progress has just their rows (`Stack.invariant`).

A formula fails in a row of its own accord, or because it looks up a row that is being computed
(`Call.Fault`). Otherwise it passes on the failure of a row further in. What comes out is the
failure of the innermost row, with its place and nothing of the rows on the way
(`materializeAll_error_iff`).
-/

namespace TableDoc.Store

open Formula (Definition Error Expr)

/-- A call for a row: how many more rows may be begun, the row, and the point at which the call is
made. -/
structure Call where
  depth : Nat
  row : RowId
  start : Progress

namespace Call

/-- How the formulas of the row look up others. -/
def lookup (s : Store) (c : Call) : String → Scalar → ExceptT Error (StateM Progress) Row :=
  s.lookupBy (s.materialize (c.depth - 1))

/-- The call begins its row and comes to column `d`, when the row has the columns `row`. -/
inductive Reaches (s : Store) (c : Call) (d : Definition) (row : Row) (p : Progress) : Prop
  | mk : 0 < c.depth → s.row? c.row = some (table, input) →
    c.start.slot? c.row = some (.pending first) → table.computed = before ++ d :: after →
    runFrom (c.start.enter c.row) (fill (c.lookup s) before first) = (.ok row, p) →
      Reaches s c d row p

/-- The call has come to column `d`, whose formula looks up the row of the call `next`. -/
inductive Asks (s : Store) (c : Call) (d : Definition) (next : Call) : Prop
  | mk {row : Row} : c.Reaches s d row p →
    ⟨name, key, next.start⟩ ∈ requests (c.lookup s) row d.formula p →
    s.find name key = .ok next.row → next.depth + 1 = c.depth → Asks s c d next

/-- At `p` the formula of column `d` fails in the row of the call, and not because a row that it
looks up has failed: it comes to an error of its own, or it looks up a row that is being computed.
-/
inductive Fault (s : Store) (c : Call) (d : Definition) : Error → Progress → Prop
  | own {row : Row} : c.Reaches s d row q →
    runFrom q (d.formula.evaluate (rowContext (c.lookup s) row)) = (.error e, p) → e.isOwn →
      Fault s c d e p
  | closing {next : Call} : c.Asks s d next → next.start.slot? next.row = some .visiting →
    Fault s c d (s.cycle next.start.path next.row) next.start

end Call

/-- Calls under way while all rows are computed from `start`, the innermost first. -/
inductive Stack (s : Store) (start : Progress) : List Call → Prop
  | sweep {before after : List RowId} {id : RowId} : s.ids = before ++ id :: after →
    runFrom start (before.forM (s.materialize s.size)) = (.ok (), p) →
      Stack s start [⟨s.size, id, p⟩]
  | lookup : Stack s start (c :: callers) → c.Asks s d next → Stack s start (next :: c :: callers)

variable {s : Store} {start p q : Progress} {id : RowId} {row : Row} {table : InputTable}
  {input : InputRow} {d : Definition} {e : Error} {diagnostic : Diagnostic}
  {c next : Call} {callers : List Call}

/-! ## How a call fails -/

/-- What a call does whose row is pending. -/
theorem Call.runFrom_materialize {first : Row} (hdepth : 0 < c.depth)
    (hr : s.row? c.row = some (table, input))
    (hpending : c.start.slot? c.row = some (.pending first)) :
    runFrom c.start (s.materialize c.depth c.row) =
      match compute (m := StateM Progress) (c.lookup s) table.computed first
        (c.start.enter c.row) with
      | ((row, none), q) => (.ok (), q.leave c.row (.done row))
      | ((row, some (column, error)), q) =>
        (.error (failure table input column error), q.leave c.row (.pending row)) := by
  obtain ⟨k, hk⟩ : ∃ k, c.depth = k + 1 := ⟨c.depth - 1, by omega⟩
  have hlookup : c.lookup s = s.lookupBy (s.materialize k) := by
    rw [Call.lookup, hk, Nat.add_sub_cancel]
  rw [hk, hlookup, runFrom_materialize_succ (a := c.start) hr hpending, change_progress]
  rcases compute (m := StateM Progress) (s.lookupBy (s.materialize k)) table.computed first
    (c.start.enter c.row) with ⟨⟨row, _ | ⟨column, error⟩⟩, q⟩ <;> rfl

/-- A row that is begun fails if the formula of a column fails that it comes to. -/
theorem Call.Reaches.failure (h : c.Reaches s d row p) (hr : s.row? c.row = some (table, input))
    (he : runFrom p (d.formula.evaluate (rowContext (c.lookup s) row)) = (.error e, q)) :
    (runFrom c.start (s.materialize c.depth c.row)).1 = .error (failure table input d.name e) := by
  obtain ⟨hdepth, hr', hpending, hcomputed, hfill⟩ := h
  cases hr'.symm.trans hr
  have hcompute :
      compute (m := StateM Progress) (c.lookup s) table.computed _ (c.start.enter c.row) = _ :=
    compute_eq_failed_iff.2 ⟨_, d, _, p, hcomputed, rfl, hfill, he⟩
  rw [Call.runFrom_materialize hdepth hr hpending, hcompute]

/-- A row that is begun fails only so. -/
theorem Call.exists_reaches_of_failure {first : Row} (hdepth : 0 < c.depth)
    (hr : s.row? c.row = some (table, input))
    (hpending : c.start.slot? c.row = some (.pending first))
    (h : (runFrom c.start (s.materialize c.depth c.row)).1 = .error diagnostic) :
    ∃ d row p e q, c.Reaches s d row p ∧
      runFrom p (d.formula.evaluate (rowContext (c.lookup s) row)) = (.error e, q) ∧
      diagnostic = failure table input d.name e := by
  rw [Call.runFrom_materialize hdepth hr hpending] at h
  rcases hcompute : compute (m := StateM Progress) (c.lookup s) table.computed first
    (c.start.enter c.row) with ⟨⟨row, _ | ⟨column, e⟩⟩, q⟩ <;> rw [hcompute] at h <;> cases h
  obtain ⟨before, d, after, p, hcomputed, rfl, hfill, he⟩ := compute_eq_failed_iff.1 hcompute
  exact ⟨d, row, p, e, q, ⟨hdepth, hr, hpending, hcomputed, hfill⟩, he, rfl⟩

/-- A row fails if a row fails that one of its formulas looks up. -/
theorem Call.Asks.failure (h : c.Asks s d next) (hr : s.row? c.row = some (table, input))
    (hnext : (runFrom next.start (s.materialize next.depth next.row)).1 = .error diagnostic) :
    (runFrom c.start (s.materialize c.depth c.row)).1 =
      .error (failure table input d.name (.inner diagnostic)) := by
  cases h with
  | @mk _ name key row hreaches hmem hfind hdepth =>
    rcases hm : runFrom next.start (s.materialize next.depth next.row) with ⟨found | u, q⟩ <;>
      rw [hm] at hnext <;>
      cases hnext
    have hlookup : runFrom next.start (c.lookup s name key) = (.error (.inner diagnostic), q) := by
      rw [Call.lookup, ← hdepth, Nat.add_sub_cancel, runFrom_lookupBy, hfind]
      simp only [hm]
    exact hreaches.failure hr (evaluate_of_request hmem hlookup)

/-! ## The path of calls under way -/

theorem tame_evaluate (s : Store) (depth : Nat) (row : Row) (formula : Expr) :
    s.Tame (formula.evaluate (rowContext (s.lookupBy (s.materialize depth)) row)) :=
  Expr.evaluate_of (P := s.Tame) (fun _ => .of_same fun _ => rfl) (fun _ => .of_same fun _ => rfl)
    .bind (tame_lookupBy s depth) (fun _ _ => .of_same fun _ => rfl) formula

theorem Call.Reaches.reached (h : c.Reaches s d row p) (hc : s.Reached c.start) :
    s.Reached p ∧ p.path = c.row :: c.start.path := by
  obtain ⟨-, -, hpending, -, hfill⟩ := h
  obtain ⟨hreached, hadvance⟩ := reached_compute (c.depth - 1) _ _ (hc.enter hpending)
  have hcompute := compute_eq_iff_fill.2 hfill
  rw [Call.lookup] at hcompute
  rw [hcompute] at hreached hadvance
  exact ⟨hreached, hadvance.path⟩

theorem Call.Asks.reached (h : c.Asks s d next) (hc : s.Reached c.start) :
    s.Reached next.start ∧ next.start.path = c.row :: c.start.path := by
  obtain ⟨hreaches, hmem, -, -⟩ := h
  obtain ⟨hreached, hpath⟩ := hreaches.reached hc
  obtain ⟨hreached, hadvance⟩ := reached_request (c.depth - 1) hreached hmem
  exact ⟨hreached, hadvance.path.trans hpath⟩

/-- The row at fault is the innermost one. -/
theorem Call.Fault.path (h : c.Fault s d e p) (hc : s.Reached c.start) :
    p.path = c.row :: c.start.path := by
  cases h with
  | @own q _ _ row hreaches he _ =>
    obtain ⟨hreached, hpath⟩ := hreaches.reached hc
    have hadvance := (tame_evaluate s (c.depth - 1) row d.formula q hreached).2
    rw [← Call.lookup, he] at hadvance
    exact hadvance.path.trans hpath
  | closing hasks _ => exact (hasks.reached hc).2

/-- The path of a call has the rows of the calls above it, and so many rows fewer may still be
begun. -/
theorem Stack.invariant (hstart : s.Reached start) (hpath : start.path = [])
    (h : s.Stack start (c :: callers)) :
    s.Reached c.start ∧ c.start.path = callers.map Call.row ∧
    c.depth + callers.length = s.size := by
  generalize hcalls : c :: callers = calls at h
  induction h generalizing c callers with
  | @sweep p before _ _ _ hrun =>
    cases hcalls
    obtain ⟨hreached, hadvance⟩ := tame_forM s s.size before start hstart
    rw [hrun] at hreached hadvance
    exact ⟨hreached, hadvance.path.trans hpath, rfl⟩
  | lookup _ hasks ih =>
    cases hcalls
    obtain ⟨hreached, hrows, hdepth⟩ := ih rfl
    obtain ⟨hreached, hpath⟩ := hasks.reached hreached
    obtain ⟨-, -, -, hnext⟩ := hasks
    refine ⟨hreached, by rw [hpath, hrows, List.map_cons], ?_⟩
    rw [List.length_cons]
    omega

/-- There is room for a row that is called for and pending: the bound is never what ends a
computation. -/
theorem Stack.depth_pos (hstart : s.Reached start) (hpath : start.path = [])
    (h : s.Stack start (c :: callers)) (hpending : c.start.slot? c.row = some (.pending row)) :
    0 < c.depth := by
  obtain ⟨hreached, hrows, hdepth⟩ := h.invariant hstart hpath
  have hlength : c.start.path.length + 1 ≤ s.size := (hreached.enter hpending).sound.length_path_le
  rw [hrows, List.length_map] at hlength
  omega

/-! ## The innermost failure -/

/-- A row adds nothing to the failure of a row that it looked up. -/
theorem failure_inner (table inner : InputTable) (input innerInput : InputRow)
    (column innerColumn : String) (e : Error) :
    failure table input column (.inner (failure inner innerInput innerColumn e)) =
      failure inner innerInput innerColumn e := by
  rcases hspan : e.toDiagnostic.span with _ | span <;>
    simp only [failure, Error.toDiagnostic_inner, Diagnostic.orTable, Diagnostic.orColumn,
      Diagnostic.orRowKey, Diagnostic.orSpan, Option.getD_some, hspan] <;> rfl

/-- A row at fault fails. -/
theorem Call.Fault.failure (h : c.Fault s d e p) (hr : s.row? c.row = some (table, input)) :
    (runFrom c.start (s.materialize c.depth c.row)).1 = .error (failure table input d.name e) := by
  cases h with
  | own hreaches he _ => exact hreaches.failure hr he
  | @closing next hasks hvisiting =>
    refine hasks.failure hr ?_
    obtain ⟨-, -, hfind, -⟩ := id hasks
    obtain ⟨_, _, hnext, -⟩ := row?_of_find hfind
    rw [runFrom_materialize_of_visiting (a := next.start) hnext hvisiting]
    rfl

theorem isOwn_of_ofRow (h : e.ofRow) : e.isOwn := by
  cases e with
  | inner => cases h
  | _ => rfl

/-- Only a lookup can go wrong when a row is looked for. -/
theorem find_error {name : String} {key : Scalar} (h : s.find name key = .error e) :
    ∃ fault, e = .lookup fault := by
  rw [find] at h
  split at h
  · cases h
    exact ⟨_, rfl⟩
  · split at h <;> cases h
    exact ⟨_, rfl⟩

/-- The failure of a pending row that is called for is that of a row at fault. -/
theorem exists_fault_of_failure {first : Row} (hstart : s.Reached start) (hpath : start.path = [])
    (hstack : s.Stack start (c :: callers)) (hpending : c.start.slot? c.row = some (.pending first))
    (h : (runFrom c.start (s.materialize c.depth c.row)).1 = .error diagnostic) :
    ∃ c callers table input d e p, s.Stack start (c :: callers) ∧
      s.row? c.row = some (table, input) ∧
      c.Fault s d e p ∧ diagnostic = failure table input d.name e := by
  induction hn : c.depth using Nat.strongRecOn generalizing c callers first diagnostic with
  | ind n ih =>
    have hdepth := hstack.depth_pos hstart hpath hpending
    obtain ⟨hreached, -, -⟩ := hstack.invariant hstart hpath
    obtain ⟨table, input, hr⟩ := hreached.sound.exists_row? hpending
    obtain ⟨d, row, p, e, q, hreaches, he, rfl⟩ :=
      Call.exists_reaches_of_failure hdepth hr hpending h
    rcases request_of_error he with hrow | ⟨⟨name, key, b⟩, hmem, hrequest⟩
    · exact ⟨c, callers, table, input, d, e, q, hstack, hr,
        .own hreaches he (isOwn_of_ofRow hrow), rfl⟩
    rw [Call.lookup, runFrom_lookupBy] at hrequest
    rcases hfind : s.find name key with e' | id <;> rw [hfind] at hrequest
    · cases hrequest
      obtain ⟨fault, rfl⟩ := find_error hfind
      exact ⟨c, callers, table, input, d, _, _, hstack, hr, .own hreaches he rfl, rfl⟩
    have hasks : c.Asks s d ⟨c.depth - 1, id, b⟩ :=
      ⟨hreaches, hmem, hfind, Nat.sub_add_cancel hdepth⟩
    rcases hm : runFrom b (s.materialize (c.depth - 1) id) with ⟨found | u, q'⟩ <;>
      simp only [hm] at hrequest <;>
      cases hrequest
    obtain ⟨_, _, hfound, -⟩ := row?_of_find hfind
    rcases hslot : b.slot? id with _ | cells | _ | cells
    · rw [runFrom_materialize_of_slot?_eq_none (a := b) hslot] at hm
      cases hm
    · obtain ⟨c', callers', table', input', d', e', p', hstack', hr', hfault, rfl⟩ :=
        ih (c.depth - 1) (by omega) (hstack.lookup hasks) hslot (congrArg Prod.fst hm) rfl
      exact ⟨c', callers', table', input', d', e', p', hstack', hr', hfault, failure_inner ..⟩
    · rw [runFrom_materialize_of_visiting (a := b) hfound hslot] at hm
      cases hm
      exact ⟨c, callers, table, input, d, _, _, hstack, hr, .closing hasks hslot, rfl⟩
    · rw [runFrom_materialize_of_done (a := b) hslot] at hm
      cases hm

/-- A failure with its place comes out of all calls under way. -/
theorem Stack.failure {inner : InputTable} {innerInput : InputRow} {column : String}
    (h : s.Stack start (c :: callers))
    (hc : (runFrom c.start (s.materialize c.depth c.row)).1 =
      .error (failure inner innerInput column e)) :
    (runFrom start (s.materializeAll (m := StateM Progress))).1 =
      .error (failure inner innerInput column e) := by
  generalize hcalls : c :: callers = calls at h
  induction h generalizing c callers with
  | sweep hids hrun =>
    cases hcalls
    have hall : runFrom start (s.ids.forM (s.materialize (m := StateM Progress) s.size)) = _ :=
      runFrom_forM_eq_error_iff.2 ⟨_, _, _, _, hids, hrun, Prod.ext hc rfl⟩
    exact congrArg Prod.fst hall
  | lookup _ hasks ih =>
    cases hcalls
    obtain ⟨⟨-, hr, -⟩, -⟩ := id hasks
    have hc := hasks.failure hr hc
    rw [failure_inner] at hc
    exact ih hc rfl

theorem materializeAll_failure_iff (hstart : s.Reached start) (hpath : start.path = []) :
    (runFrom start (s.materializeAll (m := StateM Progress))).1 = .error diagnostic ↔
      ∃ c callers table input d e p, s.Stack start (c :: callers) ∧
        s.row? c.row = some (table, input) ∧
        c.Fault s d e p ∧ diagnostic = failure table input d.name e := by
  constructor
  · intro h
    obtain ⟨before, id, after, p, hids, hrun, hid⟩ := runFrom_forM_eq_error_iff.1 (Prod.ext h rfl)
    have hstack : s.Stack start [⟨s.size, id, p⟩] := .sweep hids hrun
    obtain ⟨hreached, hrows, -⟩ := hstack.invariant hstart hpath
    have hrow : (s.row? id).isSome := mem_ids.1 (by rw [hids]; simp)
    obtain ⟨⟨table, input⟩, hr⟩ := Option.isSome_iff_exists.1 hrow
    -- nothing is being computed where the sweep calls, so the row that fails was pending
    rcases of_materialize_error hr hid with ⟨-, -, hslot⟩ | ⟨_, row, _, _, _, _, -, hpending, -⟩
    · rcases hslot with hvisiting | ⟨hzero, row, hpending⟩
      · have hmem := (hreached.sound.mem_path id).2 hvisiting
        rw [hrows] at hmem
        cases hmem
      · exact absurd hzero (Nat.ne_of_gt (hstack.depth_pos hstart hpath hpending))
    · exact exists_fault_of_failure hstart hpath hstack hpending (congrArg Prod.fst hid)
  · rintro ⟨c, callers, table, input, d, e, p, hstack, hr, hfault, rfl⟩
    exact hstack.failure (hfault.failure hr)

/-- A fault of the row itself is reported with its code and message, at the row. -/
theorem failure_of_isOwn (table : InputTable) (input : InputRow) (column : String) (h : e.isOwn) :
    failure table input column e =
      { code := e.code, message := e.message, table := table.name, column := column,
        rowKey := input.key, span := input.span } := by
  cases e with
  | inner => cases h
  | _ => rfl

theorem Call.Fault.isOwn (h : c.Fault s d e p) : e.isOwn := by
  cases h with
  | own _ _ h => exact h
  | closing => rfl

/-- The column at fault is a computed one of the row. -/
theorem Call.Fault.mem (h : c.Fault s d e p) (hr : s.row? c.row = some (table, input)) :
    d ∈ table.computed := by
  have of_reaches {row : Row} {q : Progress} (h : c.Reaches s d row q) : d ∈ table.computed := by
    obtain ⟨-, hr', -, hcomputed, -⟩ := h
    cases hr'.symm.trans hr
    rw [hcomputed]
    exact List.mem_append_right _ List.mem_cons_self
  cases h with
  | own h => exact of_reaches h
  | closing h =>
    obtain ⟨h, -⟩ := h
    exact of_reaches h

theorem reached_recording (s : Store) (n : Nat) :
    s.Reached (s.recording n).now ∧ (s.recording n).now.path = [] :=
  ⟨⟨_, [], (run_recording s n).1⟩, (run_recording s n).2.path⟩

/-- Computing all rows, whether for the first time or again, fails just if there is a row at fault
among the calls under way. The failure has the code and the message of its error, and all of its
place: its table, its key and span, and the column. The row is the innermost of those that are being
computed when the error comes up. -/
theorem materializeAll_error_iff (s : Store) (n : Nat) (diagnostic : Diagnostic) :
    let start := (s.recording n).now
    (runFrom start (s.materializeAll (m := StateM Progress))).1 = .error diagnostic ↔
      ∃ c callers table input d e p, s.Stack start (c :: callers) ∧
        p.path = (c :: callers).map Call.row ∧ s.row? c.row = some (table, input) ∧
        d ∈ table.computed ∧ c.Fault s d e p ∧ diagnostic =
          { code := e.code, message := e.message, table := table.name, column := d.name,
            rowKey := input.key, span := input.span } := by
  intro start
  obtain ⟨hstart, hpath⟩ := reached_recording s n
  rw [materializeAll_failure_iff hstart hpath]
  constructor
  · rintro ⟨c, callers, table, input, d, e, p, hstack, hr, hfault, rfl⟩
    obtain ⟨hreached, hrows, -⟩ := hstack.invariant hstart hpath
    refine ⟨c, callers, table, input, d, e, p, hstack, ?_, hr, hfault.mem hr, hfault, ?_⟩
    · rw [hfault.path hreached, hrows, List.map_cons]
    · exact failure_of_isOwn table input d.name hfault.isOwn
  · rintro ⟨c, callers, table, input, d, e, p, hstack, -, hr, -, hfault, rfl⟩
    exact ⟨c, callers, table, input, d, e, p, hstack, hr, hfault,
      (failure_of_isOwn _ _ _ hfault.isOwn).symm⟩

end TableDoc.Store
