import Mathlib.Data.List.Chain
import Mathlib.Data.List.DropRight
import TableDoc.Proofs.Sequence
import TableDoc.Proofs.Store.Calls

/-!
# Lookups come to an end

`Store.materialize` is told how many more rows may be begun. Left to itself the recursion knows no
such bound (`materializeWithin`), and might be undefined for any number of calls one within the
other. From a point of a run it is not, and does the same as `materialize`
(`completes_materialize`): the rows that are being computed are all different, so that each call
leaves room for one row less.

A lookup that comes back to a row that is being computed is the innermost call of a `Loop`. Its
error has the labels of the rows of that loop, each of which looked up the next one
(`Stack.exists_loop`).
-/

namespace TableDoc.Store

open Formula (Definition Error Expr Simulation)

/-! ## Recursion without a bound -/

section
variable {m : Type → Type} [Monad m] [MonadStateOf Progress m]

/-- Computes a row, with `again` for the rows that it looks up. -/
def materializeBy (s : Store) (again : RowId → ExceptT Diagnostic m Unit) (id : RowId) :
    ExceptT Diagnostic m Unit := do
  let some (table, input) := s.row? id | return
  let progress ← getThe Progress
  match progress.slot? id with
  | none | some (.done _) => return
  | some .visiting => throw (s.cycle progress.path id).toDiagnostic
  | some (.pending row) => do
    modifyThe Progress (·.enter id)
    let (row, failed) ← ExceptT.lift <| compute (s.lookupBy again) table.computed row
    match failed with
    | none => modifyThe Progress (·.leave id (.done row))
    | some (column, error) => do
      modifyThe Progress (·.leave id (.pending row))
      throw (failure table input column error)

/-- Where a row more may be begun, `materialize` calls itself as `materializeBy` says. -/
theorem materialize_succ (s : Store) (depth : Nat) (id : RowId) :
    s.materialize (m := m) (depth + 1) id = s.materializeBy (s.materialize depth) id := by
  rw [materialize.eq_def]
  unfold materializeBy
  rcases s.row? id with _ | ⟨table, input⟩
  · rfl
  refine bind_congr fun progress => ?_
  rcases progress.slot? id with _ | row | _ | row <;> rfl

end

/-- Computes a row by calling itself for the rows that it looks up, however many these are. The
result is undefined where `n` calls one within the other are not enough. -/
def materializeWithin (s : Store) : Nat → RowId → ExceptT Diagnostic (StateT Progress Option) Unit
  | 0, _ => ExceptT.mk fun _ => none
  | n + 1, id => s.materializeBy (materializeWithin s n) id

/-- The computation is defined, and does the same as `x`. -/
def Completes (p : Progress) {ε α : Type} (x : ExceptT ε (StateM Progress) α)
    (y : ExceptT ε (StateT Progress Option) α) : Prop :=
  y.run.run p = some (runFrom p x)

variable {s : Store} {p q : Progress} {n depth : Nat} {id : RowId}

section
variable {ε α β : Type} {x : ExceptT ε (StateM Progress) α}
  {y : ExceptT ε (StateT Progress Option) α}

theorem Completes.bind {f : α → ExceptT ε (StateM Progress) β}
    {g : α → ExceptT ε (StateT Progress Option) β} (h : Completes p x y)
    (hf : ∀ v q, runFrom p x = (.ok v, q) → Completes q (f v) (g v)) :
    Completes p (x >>= f) (y >>= g) := by
  have hbind : (y >>= g).run.run p = (y.run.run p).bind fun result => match result with
      | (.ok v, q) => (g v).run.run q
      | (.error e, q) => some (.error e, q) := by
    rw [ExceptT.run_bind, StateT.run_bind]
    refine congrArg _ (funext fun ⟨result, q⟩ => ?_)
    cases result <;> rfl
  rw [Completes, hbind, h, runFrom_bind]
  rcases hx : runFrom p x with ⟨e | v, q⟩
  · rfl
  · exact hf v q hx

theorem Completes.adapt {ε' : Type} {f : ε → ε'} (h : Completes p x y) :
    Completes p (x.adapt f) (y.adapt f) := by
  change (Except.mapError f <$> y.run : StateT Progress Option (Except ε' α)).run p = _
  rw [StateT.run_map, h, runFrom_adapt]
  rcases runFrom p x with ⟨e | v, q⟩ <;> rfl

theorem completes_liftM (p : Progress) : ∀ x : Except ε α,
    Completes p (liftM x : ExceptT ε (StateM Progress) α) (liftM x)
  | .ok _ => rfl
  | .error _ => rfl

theorem completes_lift {x : StateM Progress α} {y : StateT Progress Option α}
    (h : y.run p = some (x p)) :
    Completes p (ExceptT.lift x : ExceptT ε (StateM Progress) α) (ExceptT.lift y) := by
  change (Except.ok <$> y : StateT Progress Option (Except ε α)).run p = _
  rw [StateT.run_map, h]
  rfl

end

/-- A point of a run from which all rows may be begun that are not being computed. -/
structure Room (s : Store) (depth : Nat) (p : Progress) : Prop where
  reached : s.Reached p
  size_le : s.size ≤ depth + p.path.length

theorem Room.advance (h : s.Room depth p) (hq : s.Reached q) (hpq : p.Advance q) : s.Room depth q :=
  ⟨hq, hpq.path ▸ h.size_le⟩

/-- A row that is begun takes up room for one. -/
theorem Room.enter (h : s.Room (depth + 1) p) (hp : p.slot? id = some (.pending row)) :
    s.Room depth (p.enter id) where
  reached := h.reached.enter hp
  size_le := by
    have hsize := h.size_le
    change s.size ≤ depth + (p.path.length + 1)
    omega

/-- While a row is pending there is room for it. -/
theorem Room.depth_pos (h : s.Room depth p) (hp : p.slot? id = some (.pending row)) :
    0 < depth := by
  have hlength : p.path.length + 1 ≤ s.size := (h.reached.enter hp).sound.length_path_le
  have hsize := h.size_le
  omega

/-- `Completes` from every point with room, as a relation that formulas keep. -/
def completion (s : Store) (depth : Nat) :
    Simulation (StateM Progress) (StateT Progress Option) where
  rel x y := s.Tame x ∧ ∀ p, s.Room depth p → Completes p x y
  pure v := ⟨.of_same fun _ => rfl, fun _ _ => rfl⟩
  throw e := ⟨.of_same fun _ => rfl, fun _ _ => rfl⟩
  bind hx hf := by
    refine ⟨hx.1.bind fun v => (hf v).1, fun p hp => (hx.2 p hp).bind fun v q hq => (hf v).2 q ?_⟩
    obtain ⟨hreached, hadvance⟩ := hx.1 p hp.reached
    rw [hq] at hreached hadvance
    exact hp.advance hreached hadvance

/-- Computing columns needs no bound if lookups need none. -/
theorem completes_compute {f : String → Scalar → ExceptT Error (StateM Progress) Row}
    {g : String → Scalar → ExceptT Error (StateT Progress Option) Row}
    (h : ∀ name key, (s.completion depth).rel (f name key) (g name key)) (ds : List Definition)
    (row : Row) (hp : s.Room depth p) : (compute g ds row).run p = some (compute f ds row p) := by
  induction ds generalizing row p with
  | nil => rfl
  | cons d ds ih =>
    obtain ⟨htame, hcompletes⟩ := (agree_rowContext (s.completion depth) h row).evaluate d.formula
    have hd := hcompletes p hp
    obtain ⟨hreached, hadvance⟩ := htame p hp.reached
    rw [compute_cons, compute, StateT.run_bind, hd]
    rcases he : runFrom p (d.formula.evaluate (rowContext f row)) with ⟨e | v, q⟩ <;>
      rw [he] at hreached hadvance
    · rfl
    · exact ih _ (hp.advance hreached hadvance)

/-- Lookups need no bound if computing rows needs none. -/
theorem completion_lookupBy {again : RowId → ExceptT Diagnostic (StateT Progress Option) Unit}
    (h : ∀ id p, s.Room depth p → Completes p (s.materialize depth id) (again id)) (name : String)
    (key : Scalar) :
    (s.completion depth).rel (s.lookupBy (s.materialize depth) name key)
      (s.lookupBy again name key) := by
  refine ⟨tame_lookupBy s depth name key, fun p hp => ?_⟩
  refine Completes.bind (completes_liftM p (s.find name key)) fun id q hq => ?_
  rw [runFrom_lift] at hq
  obtain rfl : p = q := congrArg Prod.snd hq
  exact (h id p hp).adapt.bind fun _ q _ =>
    Completes.bind (x := getThe Progress) rfl fun _ _ _ => rfl

/-- The same happens to a row as long as the same happens if it is pending. -/
theorem completes_materializeBy {again : RowId → ExceptT Diagnostic (StateM Progress) Unit}
    {again' : RowId → ExceptT Diagnostic (StateT Progress Option) Unit}
    (h : ∀ table input row, s.row? id = some (table, input) → p.slot? id = some (.pending row) →
      (compute (s.lookupBy again') table.computed row).run (p.enter id) =
        some (compute (s.lookupBy again) table.computed row (p.enter id))) :
    Completes p (s.materializeBy again id) (s.materializeBy again' id) := by
  rw [materializeBy, materializeBy]
  rcases hr : s.row? id with _ | ⟨table, input⟩
  · rfl
  refine Completes.bind (x := getThe Progress) rfl fun progress q hq => ?_
  rw [runFrom_get] at hq
  cases hq
  rw [now_progress]
  rcases hp : p.slot? id with _ | row | _ | row
  · rfl
  · refine Completes.bind (x := modifyThe Progress (·.enter id)) rfl fun _ q hq => ?_
    rw [runFrom_modify] at hq
    obtain rfl : p.enter id = q := congrArg Prod.snd hq
    refine (completes_lift (h table input row hr hp)).bind fun ⟨row, failed⟩ q _ => ?_
    rcases failed with _ | ⟨column, error⟩ <;> rfl
  · rfl
  · rfl

/-- Apart from a pending row, the bound does not matter. -/
theorem runFrom_materialize_congr (h : ∀ row, p.slot? id ≠ some (.pending row)) (depth n : Nat) :
    runFrom p (s.materialize depth id) = runFrom p (s.materialize n id) := by
  rcases hr : s.row? id with _ | ⟨table, input⟩
  · rw [runFrom_materialize_of_row?_eq_none hr, runFrom_materialize_of_row?_eq_none hr]
  rcases hp : p.slot? id with _ | row | _ | row
  · rw [runFrom_materialize_of_slot?_eq_none (a := p) hp,
      runFrom_materialize_of_slot?_eq_none (a := p) hp]
  · exact absurd hp (h row)
  · rw [runFrom_materialize_of_visiting (a := p) hr hp,
      runFrom_materialize_of_visiting (a := p) hr hp]
  · rw [runFrom_materialize_of_done (a := p) hp, runFrom_materialize_of_done (a := p) hp]

/-- As many calls one within the other are enough as rows may be begun, and one more. -/
theorem completes_materialize (hn : depth < n) (id : RowId) (hp : s.Room depth p) :
    Completes p (s.materialize depth id) (s.materializeWithin n id) := by
  induction depth generalizing n id p with
  | zero =>
    obtain ⟨n, rfl⟩ := Nat.exists_eq_add_of_lt hn
    have hnot (row : Row) : p.slot? id ≠ some (.pending row) :=
      fun hpending => absurd (hp.depth_pos hpending) (Nat.lt_irrefl 0)
    rw [Completes, runFrom_materialize_congr hnot 0 1, materialize_succ]
    exact completes_materializeBy fun _ _ row _ hpending => absurd hpending (hnot row)
  | succ depth ih =>
    obtain ⟨n, rfl⟩ : ∃ k, n = k + 1 := ⟨n - 1, by omega⟩
    rw [materialize_succ]
    refine completes_materializeBy fun table input row hr hpending => ?_
    have hlookup (name : String) (key : Scalar) :
        (s.completion depth).rel (s.lookupBy (s.materialize depth) name key)
          (s.lookupBy (s.materializeWithin n) name key) :=
      completion_lookupBy (fun id p hp => ih (Nat.lt_of_succ_lt_succ hn) id hp) name key
    exact completes_compute hlookup table.computed row (hp.enter hpending)

/-- Computing rows one after another needs no bound. -/
theorem completes_forM (hn : s.size < n) (visits : List RowId) (hp : s.Reached p) :
    Completes p (visits.forM (s.materialize s.size)) (visits.forM (s.materializeWithin n)) := by
  induction visits generalizing p with
  | nil => rfl
  | cons id visits ih =>
    refine Completes.bind (completes_materialize hn id ⟨hp, Nat.le_add_right _ _⟩) fun _ q hq => ?_
    have hreached := (tame_materialize s s.size id p hp).1
    rw [hq] at hreached
    exact ih hreached

/-! ## Lookups that come back -/

/-- Calls, the innermost first, of which each is made for a lookup of the next one. All of their
rows are being computed when the innermost is made, so that it comes back to one of them, or to its
label. -/
structure Loop (s : Store) (calls : List Call) : Prop where
  two_le : 2 ≤ calls.length
  ends : (calls.map fun c => s.label c.row).head? = (calls.map fun c => s.label c.row).getLast?
  asks : calls.IsChain fun inner outer => ∃ d, outer.Asks s d inner
  visiting : ∀ last ∈ calls.head?, ∀ c ∈ calls, last.start.slot? c.row = some .visiting

/-- The error that the innermost of some calls comes to, if they make a loop. -/
def loopError (s : Store) (calls : List Call) : Error :=
  .lookupCycle (calls.map fun c => s.label c.row).reverse

variable {start : Progress} {c next : Call} {calls callers : List Call} {row : Row} {d : Definition}
  {e : Error} {diagnostic : Diagnostic}

/-- On a stack of calls each is asked for by the next. -/
theorem Stack.isChain (h : s.Stack start calls) :
    calls.IsChain fun inner outer => ∃ d, outer.Asks s d inner := by
  induction h with
  | sweep => exact .singleton _
  | lookup _ hasks ih => exact List.isChain_cons_cons.2 ⟨⟨_, hasks⟩, ih⟩

/-- The path of a cycle starts at the first row with the label that it comes back to. -/
theorem cycle_of_mem (h : s.label id ∈ p.path.reverse.map s.label) :
    s.cycle p.path id =
      .lookupCycle ((p.path.reverse.map s.label).dropWhile (· ≠ s.label id) ++ [s.label id]) := by
  rw [cycle, drop_idxOf? h]

/-- A row that is called for while it is being computed closes a loop: of the calls under way, the
one with its label that was begun first, and those further in. The path of the cycle has their
labels, the outermost first. -/
theorem Stack.exists_loop (hstart : s.Reached start) (hpath : start.path = [])
    (h : s.Stack start (next :: callers)) (hvisiting : next.start.slot? next.row = some .visiting) :
    ∃ calls, next :: calls <+: next :: callers ∧ s.Loop (next :: calls) ∧
      s.cycle next.start.path next.row = s.loopError (next :: calls) := by
  obtain ⟨hreached, hrows, -⟩ := h.invariant hstart hpath
  have hvisits := hreached.sound.mem_path
  rw [hrows] at hvisits
  let other (c : Call) : Bool := s.label c.row ≠ s.label next.row
  have hcalls : callers.rdropWhile other <+: callers := List.rdropWhile_prefix ..
  have hne : callers.rdropWhile other ≠ [] := by
    intro hnil
    obtain ⟨c, hc, hrow⟩ := List.mem_map.1 ((hvisits next.row).2 hvisiting)
    have hlabel := List.rdropWhile_eq_nil_iff.1 hnil c hc
    simp [other, hrow] at hlabel
  have hlast : s.label ((callers.rdropWhile other).getLast hne).row = s.label next.row := by
    simpa [other] using List.rdropWhile_last_not other callers hne
  refine ⟨callers.rdropWhile other, (List.prefix_cons_inj next).2 hcalls, ?_, ?_⟩
  · exact {
      two_le := by
        have hlength := List.length_pos_iff.2 hne
        rw [List.length_cons]
        omega
      ends := by
        rw [List.getLast?_map, List.getLast?_cons, List.getLast?_eq_some_getLast hne,
          Option.getD_some, Option.map_some, hlast]
        rfl
      asks := h.isChain.infix ((List.prefix_cons_inj next).2 hcalls).isInfix
      visiting := by
        rintro _ ⟨⟩ c hc
        rcases List.mem_cons.1 hc with rfl | hc
        · exact hvisiting
        · exact (hvisits c.row).1 (List.mem_map_of_mem (hcalls.subset hc)) }
  · have hmem : s.label next.row ∈ next.start.path.reverse.map s.label := by
      refine List.mem_map_of_mem (List.mem_reverse.2 ?_)
      rw [hrows]
      exact (hvisits next.row).2 hvisiting
    rw [cycle_of_mem hmem, loopError, hrows, ← List.map_reverse, List.map_map, List.dropWhile_map,
      List.map_cons, List.reverse_cons, ← List.map_reverse, List.rdropWhile, List.reverse_reverse]
    rfl

/-- A lookup of a row that is being computed fails. -/
theorem runFrom_lookupBy_visiting {name : String} {key : Scalar} (hfind : s.find name key = .ok id)
    (hvisiting : p.slot? id = some .visiting) (depth : Nat) :
    runFrom p (s.lookupBy (s.materialize depth) name key) =
      (.error (.inner (s.cycle p.path id).toDiagnostic), p) := by
  obtain ⟨_, _, hr, -⟩ := row?_of_find hfind
  rw [runFrom_lookupBy, hfind]
  simp only [runFrom_materialize_of_visiting (a := p) hr hvisiting]
  rfl

theorem code_ne_of_ofRow (h : e.ofRow) : e.code ≠ .lookupCycle := by
  cases e with
  | lookupCycle => cases h
  | inner => cases h
  | _ => nofun

/-- A row is at fault with a cycle only where a lookup closes it. -/
theorem Call.Fault.closing_of_code (h : c.Fault s d e p) (hcode : e.code = .lookupCycle) :
    ∃ next, c.Asks s d next ∧ next.start.slot? next.row = some .visiting ∧
      e = s.cycle next.start.path next.row := by
  cases h with
  | closing hasks hvisiting => exact ⟨_, hasks, hvisiting, rfl⟩
  | own hreaches he hown =>
    exfalso
    rcases request_of_error he with hrow | ⟨request, -, hrequest⟩
    · exact code_ne_of_ofRow hrow hcode
    rw [Call.lookup, runFrom_lookupBy] at hrequest
    rcases hfind : s.find request.table request.key with e' | id <;> rw [hfind] at hrequest
    · cases hrequest
      obtain ⟨fault, rfl⟩ := find_error hfind
      cases hcode
    · rcases hm : runFrom request.state (s.materialize (c.depth - 1) id) with ⟨found | u, q⟩ <;>
        simp only [hm] at hrequest <;> cases hrequest
      cases hown

/-- All calls of `materializeAll` come to an end: they do the same as a recursion without a bound,
which needs at most as many calls one within the other as there are rows, and one more. At every
point no more rows are being computed than there are, and the path has just these. A lookup of one
of them fails with a lookup cycle, in which the path of the cycle has the labels of a loop of calls
under way; every failure of the code comes from such a lookup. -/
theorem materializeAll_ends (s : Store) (n : Nat) :
    let start := (s.recording n).now
    (∀ k, s.size < k → Completes start s.materializeAll (s.ids.forM (s.materializeWithin k))) ∧
    (∀ p ∈ (s.recording (n + 1)).points,
      p.path.length ≤ s.size ∧ p.path.Nodup ∧ ∀ id, id ∈ p.path ↔ p.slot? id = some .visiting) ∧
    (∀ (p : Progress) depth name key id, s.find name key = .ok id → p.slot? id = some .visiting →
      ∃ labels, runFrom p (s.lookupBy (s.materialize depth) name key) =
        (.error (.inner (Error.lookupCycle labels).toDiagnostic), p)) ∧
    (∀ next callers, s.Stack start (next :: callers) → next.start.slot? next.row = some .visiting →
      next.row ∈ next.start.path ∧ ∃ calls, next :: calls <+: next :: callers ∧
        s.Loop (next :: calls) ∧
          runFrom next.start (s.materialize next.depth next.row) =
            (.error (s.loopError (next :: calls)).toDiagnostic, next.start)) ∧
    (∀ diagnostic, (runFrom start (s.materializeAll (m := StateM Progress))).1 = .error diagnostic →
      diagnostic.code = .lookupCycle → ∃ calls callers, s.Stack start (calls ++ callers) ∧
        s.Loop calls ∧ diagnostic.message = (s.loopError calls).message) := by
  intro start
  obtain ⟨hstart, hpath⟩ := reached_recording s n
  refine ⟨fun k hk => completes_forM hk s.ids hstart, fun p hp => ?_,
    fun p depth name key id hfind hvisiting => ?_, fun next callers hstack hvisiting => ?_,
    fun diagnostic hfailed hcode => ?_⟩
  · obtain ⟨past, after, hpoints⟩ := List.append_of_mem hp
    obtain ⟨out, hrun⟩ := (run_recording s (n + 1)).1.of_suffix ⟨past, hpoints.symm⟩
    have hsound := hrun.sound p rfl
    exact ⟨hsound.length_path_le, hsound.nodup, hsound.mem_path⟩
  · exact ⟨_, runFrom_lookupBy_visiting hfind hvisiting depth⟩
  · obtain ⟨hreached, -, -⟩ := hstack.invariant hstart hpath
    obtain ⟨calls, hcalls, hloop, hcycle⟩ := hstack.exists_loop hstart hpath hvisiting
    obtain ⟨table, input, hr⟩ := hreached.sound.exists_row? hvisiting
    refine ⟨(hreached.sound.mem_path next.row).2 hvisiting, calls, hcalls, hloop, ?_⟩
    rw [runFrom_materialize_of_visiting (a := next.start) hr hvisiting, ← hcycle]
    rfl
  · obtain ⟨c, callers, table, input, d, e, p, hstack, hr, hfault, rfl⟩ :=
      (materializeAll_failure_iff hstart hpath).1 hfailed
    rw [failure_of_isOwn table input d.name hfault.isOwn] at hcode ⊢
    obtain ⟨next, hasks, hvisiting, rfl⟩ := hfault.closing_of_code hcode
    obtain ⟨calls, ⟨rest, hcalls⟩, hloop, hcycle⟩ :=
      (hstack.lookup hasks).exists_loop hstart hpath hvisiting
    refine ⟨next :: calls, rest, hcalls ▸ hstack.lookup hasks, hloop, ?_⟩
    rw [hcycle]

example :
    (runFrom ring.initial (ring.materializeAll (m := StateM Progress))).1.mapError (·.message) =
      .error "Lookup cycle detected: stop[a] -> stop[b] -> stop[a]" := by decide +kernel

end TableDoc.Store
