import Mathlib.Data.List.Nodup
import Mathlib.Data.List.Perm.Subperm
import TableDoc.Proofs.Store.State

/-!
# Runs of the row store

What a computation of rows does to the progress, step by step. `Store.Run` says what one step can
do: a row that is pending is taken out and entered on the path, or the row that was entered last is
put back with further columns. Every computation only makes such steps, and comes back to the calls
that it started from (`materialize_extends`): that is `Progress.Advance`. So at every point of a run
the path has just the rows that are being computed (`Run.sound`).
-/

namespace TableDoc.Store

open Formula (Definition Error Expr Simulation)
open Keeps

/-! ## Coming back to the same calls -/

section
variable {s : Store} {id other : RowId} {row : Row} {slot slot' : Slot} {p q r : Progress}

theorem Progress.slot?_enter (p : Progress) (id other : RowId) :
    (p.enter id).slot? other =
      if other = id then (p.slot? id).map fun _ => .visiting else p.slot? other :=
  p.slot?_set id other .visiting

theorem Progress.slot?_leave (p : Progress) (id other : RowId) (slot : Slot) :
    (p.leave id slot).slot? other =
      if other = id then (p.slot? id).map fun _ => slot else p.slot? other :=
  p.slot?_set id other slot

theorem Progress.slot?_of_slot?_enter (h : (p.enter id).slot? other = some slot)
    (hs : slot ≠ .visiting) :
    p.slot? other = some slot := by
  rw [slot?_enter] at h
  split at h
  · obtain ⟨_, -, hv⟩ := Option.map_eq_some_iff.1 h
    exact absurd hv.symm hs
  · exact h

theorem Progress.of_slot?_leave (h : (p.leave id slot).slot? other = some slot') :
    (other = id ∧ slot = slot') ∨ p.slot? other = some slot' := by
  rw [slot?_leave] at h
  split at h
  · next ho =>
    obtain ⟨_, -, hs⟩ := Option.map_eq_some_iff.1 h
    exact .inl ⟨ho, hs⟩
  · exact .inr h

/-- `q` is further on than `p` in the same calls: the same rows are being computed, and rows that
are done stay as they are. -/
structure Progress.Advance (p q : Progress) : Prop where
  path : q.path = p.path
  visiting : ∀ id, q.slot? id = some .visiting ↔ p.slot? id = some .visiting
  done : ∀ {id row}, p.slot? id = some (.done row) → q.slot? id = some (.done row)

theorem Progress.Advance.refl (p : Progress) : p.Advance p := ⟨rfl, fun _ => .rfl, fun h => h⟩

theorem Progress.Advance.trans (h₁ : p.Advance q) (h₂ : q.Advance r) : p.Advance r :=
  ⟨h₂.path.trans h₁.path, fun id => (h₂.visiting id).trans (h₁.visiting id),
    fun h => h₂.done (h₁.done h)⟩

theorem Progress.Advance.leave (hp : p.slot? id = some (.pending row)) (h : (p.enter id).Advance q)
    (hs : slot ≠ .visiting) : p.Advance (q.leave id slot) where
  path := by
    change q.path.tail = p.path
    rw [h.path]
    rfl
  visiting other := by
    rw [slot?_leave]
    split
    · next ho =>
      subst ho
      rw [hp]
      simp [hs]
    · next ho => rw [h.visiting, slot?_enter, if_neg ho]
  done {other _} hd := by
    have ho : other ≠ id := by
      rintro rfl
      rw [hp] at hd
      cases hd
    rw [slot?_leave, if_neg ho]
    exact h.done (by rw [slot?_enter, if_neg ho, hd])

end

/-! ## Steps -/

/-- What can be recorded of a store, the latest point first, together with the rows that are out to
be computed, the innermost first. -/
inductive Run (s : Store) : List Progress → List Row → Prop
  | start : Run s [s.initial] []
  | enter {id : RowId} : Run s (p :: past) out → p.slot? id = some (.pending row) →
    Run s (p.enter id :: p :: past) (row :: out)
  | finish {id : RowId} : Run s (p :: past) (row :: out) → p.path = id :: rest →
    s.row? id = some (table, input) → Inserted table.computed row row' →
    Run s (p.leave id (.done row') :: p :: past) out
  | abandon {id : RowId} : Run s (p :: past) (row :: out) → p.path = id :: rest →
    s.row? id = some (table, input) → ds <+: table.computed → Inserted ds row row' →
    Run s (p.leave id (.pending row') :: p :: past) out

variable {s : Store}

/-- A computation records steps of the store only, and comes back to where it was called. -/
def Extends (s : Store) {ε α : Type} (x : ExceptT ε (StateM History) α) : Prop :=
  ∀ h out, s.Run h.points out →
    s.Run (runFrom h x).2.points out ∧ h.now.Advance (runFrom h x).2.now

section
variable {ε α β : Type}

theorem Extends.of_same {x : ExceptT ε (StateM History) α} (h : ∀ a, (runFrom a x).2 = a) :
    s.Extends x := by
  intro a out ha
  rw [h]
  exact ⟨ha, .refl _⟩

theorem Extends.bind {x : ExceptT ε (StateM History) α} {f : α → ExceptT ε (StateM History) β}
    (hx : s.Extends x) (hf : ∀ v, s.Extends (f v)) : s.Extends (x >>= f) := by
  intro h out hr
  obtain ⟨hr₁, ha₁⟩ := hx h out hr
  rw [runFrom_bind]
  rcases hb : runFrom h x with ⟨e | v, b⟩ <;> rw [hb] at hr₁ ha₁
  · exact ⟨hr₁, ha₁⟩
  · obtain ⟨hr₂, ha₂⟩ := hf v b out hr₁
    exact ⟨hr₂, ha₁.trans ha₂⟩

end

theorem evaluate_extends {lookup : String → Scalar → ExceptT Error (StateM History) Row}
    (h : ∀ name key, s.Extends (lookup name key)) (row : Row) (e : Expr) :
    s.Extends (e.evaluate (rowContext lookup row)) :=
  Expr.evaluate_of (P := s.Extends) (fun _ => .of_same fun _ => rfl)
    (fun _ => .of_same fun _ => rfl) .bind h (fun _ _ => .of_same fun _ => rfl) e

theorem lookupBy_extends {f : RowId → ExceptT Diagnostic (StateM History) Unit}
    (h : ∀ id, s.Extends (f id)) (name : String) (key : Scalar) :
    s.Extends (s.lookupBy f name key) := by
  intro a out ha
  rw [runFrom_lookupBy]
  cases s.find name key with
  | error e => exact ⟨ha, .refl _⟩
  | ok id =>
    have hb := h id a out ha
    rcases hx : runFrom a (f id) with ⟨d | u, b⟩ <;> rw [hx] at hb <;> simpa only [hx] using hb

/-- Computing columns extends a run if lookups do. -/
theorem compute_extends {lookup : String → Scalar → ExceptT Error (StateM History) Row}
    (hl : ∀ name key, s.Extends (lookup name key)) (ds : List Definition) (row : Row) (h : History)
    (out : List Row) (hr : s.Run h.points out) :
    let result := compute lookup ds row h
    s.Run result.2.points out ∧ h.now.Advance result.2.now := by
  induction ds generalizing row h with
  | nil => exact ⟨hr, .refl _⟩
  | cons d ds ih =>
    obtain ⟨hr₁, ha₁⟩ := evaluate_extends hl row d.formula h out hr
    rw [compute_cons]
    rcases hb : runFrom h (d.formula.evaluate (rowContext lookup row)) with ⟨e | v, b⟩ <;>
      rw [hb] at hr₁ ha₁
    · exact ⟨hr₁, ha₁⟩
    · obtain ⟨hr₂, ha₂⟩ := ih (row.insert d.name v) b hr₁
      exact ⟨hr₂, ha₁.trans ha₂⟩

/-- Computing a row extends a run. -/
theorem materialize_extends (s : Store) : ∀ (depth : Nat) (id : RowId),
    s.Extends (s.materialize (m := StateM History) depth id) := by
  intro depth id h out hrun
  rcases hr : s.row? id with _ | ⟨table, input⟩
  · rw [runFrom_materialize_of_row?_eq_none hr]; exact ⟨hrun, .refl _⟩
  rcases hp : (now h).slot? id with _ | row | _ | row
  · rw [runFrom_materialize_of_slot?_eq_none hp]; exact ⟨hrun, .refl _⟩
  · match depth with
    | 0 => rw [runFrom_materialize_zero hr hp]; exact ⟨hrun, .refl _⟩
    | depth + 1 =>
      have henter : s.Run (change (·.enter id) h).points (row :: out) := .enter hrun hp
      have hl := lookupBy_extends (materialize_extends s depth)
      obtain ⟨hb, ha⟩ := compute_extends hl table.computed row _ _ henter
      obtain ⟨ds, hds, hn, hi⟩ :=
        inserted_compute (s.lookupBy (s.materialize depth)) table.computed row
          (change (·.enter id) h)
      rw [runFrom_materialize_succ hr hp]
      rcases hc : compute (m := StateM History) (s.lookupBy (s.materialize depth)) table.computed
        row (change (·.enter id) h) with ⟨⟨row', _ | ⟨column, error⟩⟩, b⟩ <;> rw [hc] at hb ha hn hi
      · cases hn rfl
        exact ⟨.finish hb ha.path hr hi, .leave hp ha nofun⟩
      · exact ⟨.abandon hb ha.path hr hds hi, .leave hp ha nofun⟩
  · rw [runFrom_materialize_of_visiting hr hp]; exact ⟨hrun, .refl _⟩
  · rw [runFrom_materialize_of_done hp]; exact ⟨hrun, .refl _⟩

/-- Computing rows one after another extends a run. -/
theorem forM_extends (s : Store) (depth : Nat) (visits : List RowId) :
    s.Extends (visits.forM (s.materialize (m := StateM History) depth)) := by
  induction visits with
  | nil => exact .of_same fun _ => rfl
  | cons id visits ih => exact (materialize_extends s depth id).bind fun _ => ih

/-! ## The rows of a store -/

section
variable {id : RowId} {p : Progress}

theorem row?_eq_some {table : InputTable} {input : InputRow} :
    s.row? id = some (table, input) ↔
      s.tables[id.table]? = some table ∧ table.rows[id.row]? = some input := by
  simp only [row?, Option.bind_eq_bind, Option.bind_eq_some_iff, Option.pure_def, Option.some.injEq,
    Prod.mk.injEq]
  constructor
  · rintro ⟨_, ht, _, hi, rfl, rfl⟩
    exact ⟨ht, hi⟩
  · rintro ⟨ht, hi⟩
    exact ⟨table, ht, input, hi, rfl, rfl⟩

/-- The rows of the store are those that are given. -/
theorem mem_ids : id ∈ s.ids ↔ (s.row? id).isSome := by
  obtain ⟨t, r⟩ := id
  rw [Option.isSome_iff_exists]
  simp only [ids, List.mem_flatMap, List.mem_map, List.mem_range, Prod.exists,
    List.mem_zipIdx_iff_getElem?, row?_eq_some, RowId.mk.injEq]
  constructor
  · rintro ⟨table, i, ht, j, hj, rfl, rfl⟩
    exact ⟨table, table.rows[j], ht, List.getElem?_eq_getElem hj⟩
  · rintro ⟨table, input, ht, hi⟩
    exact ⟨table, t, ht, r, (List.getElem?_eq_some_iff.1 hi).1, rfl, rfl⟩

/-- No row of the store is listed twice. -/
theorem nodup_ids (s : Store) : s.ids.Nodup := by
  rw [ids, List.nodup_flatMap]
  refine ⟨fun _ _ => List.nodup_range.map fun _ _ h => (RowId.mk.inj h).2, ?_⟩
  rw [List.pairwise_iff_getElem]
  intro i j hi hj hij
  simp only [Function.onFun, List.disjoint_left, List.mem_map, List.getElem_zipIdx]
  rintro _ ⟨r, _, rfl⟩ ⟨r', _, h⟩
  have := (RowId.mk.inj h).1
  omega

theorem slot?_initial (s : Store) (id : RowId) :
    s.initial.slot? id = (s.row? id).map fun found => .pending found.2.cells := by
  simp only [Progress.slot?, initial, row?, List.getElem?_map]
  cases s.tables[id.table]? with
  | none => rfl
  | some table =>
    cases h : table.rows[id.row]? <;> simp [h]

/-- What holds at every point of a run: the slots are those of the rows, and the path has the rows
that are being computed, each once. -/
structure Sound (s : Store) (p : Progress) : Prop where
  slot?_isSome : ∀ id, (p.slot? id).isSome = (s.row? id).isSome
  mem_path : ∀ id, id ∈ p.path ↔ p.slot? id = some .visiting
  nodup : p.path.Nodup

/-- A state stays sound when a pending row is begun. -/
theorem Sound.enter (h : s.Sound p) (hp : p.slot? id = some (.pending row)) :
    s.Sound (p.enter id) where
  slot?_isSome other := by
    rw [Progress.slot?_enter]
    split
    · next ho => subst ho; rw [Option.isSome_map, h.slot?_isSome]
    · exact h.slot?_isSome other
  mem_path other := by
    rw [Progress.slot?_enter]
    change other ∈ id :: p.path ↔ _
    rw [List.mem_cons]
    split
    · next ho => simp [ho, hp]
    · next ho => simp [ho, h.mem_path]
  nodup := by
    refine List.nodup_cons.2 ⟨fun hi => ?_, h.nodup⟩
    rw [h.mem_path, hp] at hi
    cases hi

/-- A state stays sound when the row that was begun last is left. -/
theorem Sound.leave (h : s.Sound p) (hp : p.path = id :: rest) (hs : slot ≠ .visiting) :
    s.Sound (p.leave id slot) where
  slot?_isSome other := by
    rw [Progress.slot?_leave]
    split
    · next ho => subst ho; rw [Option.isSome_map, h.slot?_isSome]
    · exact h.slot?_isSome other
  mem_path other := by
    have hn := h.nodup
    have hm := h.mem_path other
    rw [hp] at hn hm
    rw [Progress.slot?_leave]
    change other ∈ p.path.tail ↔ _
    rw [hp, List.tail_cons]
    split
    · next ho =>
      subst ho
      simp [(List.nodup_cons.1 hn).1, hs]
    · next ho => rw [← hm, List.mem_cons, or_iff_right ho]
  nodup := h.nodup.tail

theorem Sound.mem_ids_of_slot? (h : s.Sound p) (hslot : p.slot? id = some slot) : id ∈ s.ids := by
  rw [mem_ids, ← h.slot?_isSome, hslot]
  rfl

theorem Sound.exists_row? (h : s.Sound p) (hslot : p.slot? id = some slot) :
    ∃ table input, s.row? id = some (table, input) :=
  let ⟨⟨table, input⟩, hr⟩ := Option.isSome_iff_exists.1 (mem_ids.1 (h.mem_ids_of_slot? hslot))
  ⟨table, input, hr⟩

/-- No more rows are being computed than there are. -/
theorem Sound.length_path_le (h : s.Sound p) : p.path.length ≤ s.size := by
  have hsub : p.path ⊆ s.ids := fun id hid => h.mem_ids_of_slot? ((h.mem_path id).1 hid)
  exact (List.subperm_of_subset h.nodup hsub).length_le

/-- Every point of a run is sound. -/
theorem Run.sound (h : s.Run points out) : ∀ p ∈ points.head?, s.Sound p := by
  induction h with
  | start =>
    rintro _ ⟨⟩
    refine ⟨fun id => by rw [slot?_initial, Option.isSome_map], fun id => ?_, List.nodup_nil⟩
    rw [slot?_initial]
    cases s.row? id <;> simp [initial]
  | enter _ hp ih =>
    rintro _ ⟨⟩
    exact (ih _ rfl).enter hp
  | finish _ hp _ _ ih | abandon _ hp _ _ _ ih =>
    rintro _ ⟨⟩
    exact (ih _ rfl).leave hp nofun

/-- What rows that are pending or out to be computed satisfy, and what rows that are done satisfy.
-/
structure Rows (s : Store) (P Q : InputTable → InputRow → Row → Prop) (p : Progress)
    (out : List Row) : Prop where
  pending : ∀ {id table input row}, s.row? id = some (table, input) →
    p.slot? id = some (.pending row) → P table input row
  done : ∀ {id table input row}, s.row? id = some (table, input) →
    p.slot? id = some (.done row) → Q table input row
  out : List.Forall₂ (fun id row => ∀ {table input}, s.row? id = some (table, input) →
    P table input row) p.path out

section
variable {P Q : InputTable → InputRow → Row → Prop} {out : List Row} {table : InputTable}
  {input : InputRow}

theorem Rows.enter (h : s.Rows P Q p out) (hp : p.slot? id = some (.pending row)) :
    s.Rows P Q (p.enter id) (row :: out) where
  pending hr hq := h.pending hr (Progress.slot?_of_slot?_enter hq nofun)
  done hr hq := h.done hr (Progress.slot?_of_slot?_enter hq nofun)
  out := .cons (fun hr => h.pending hr hp) h.out

/-- What is said of the rows goes on to hold when one is left. -/
theorem Rows.leave (h : s.Rows P Q p (row :: out)) (hpath : p.path = id :: rest)
    (hr : s.row? id = some (table, input))
    (hpending : ∀ row', slot = .pending row' → P table input row')
    (hdone : ∀ row', slot = .done row' → Q table input row') :
    s.Rows P Q (p.leave id slot) out where
  pending hr' hq := by
    rcases Progress.of_slot?_leave hq with ⟨rfl, hslot⟩ | hq
    · cases hr.symm.trans hr'
      exact hpending _ hslot
    · exact h.pending hr' hq
  done hr' hq := by
    rcases Progress.of_slot?_leave hq with ⟨rfl, hslot⟩ | hq
    · cases hr.symm.trans hr'
      exact hdone _ hslot
    · exact h.done hr' hq
  out := by
    have hout := h.out
    rw [hpath, List.forall₂_cons] at hout
    change List.Forall₂ _ p.path.tail out
    rw [hpath]
    exact hout.2

/-- Properties of rows hold in all runs if they hold of the declared columns and are kept by the
columns that are inserted. -/
theorem Run.rows
    (hinput : ∀ {id table input}, s.row? id = some (table, input) → P table input input.cells)
    (hpart : ∀ {id table input ds row row'}, s.row? id = some (table, input) → P table input row →
      ds <+: table.computed → Inserted ds row row' → P table input row')
    (hwhole : ∀ {id table input row row'}, s.row? id = some (table, input) → P table input row →
      Inserted table.computed row row' → Q table input row')
    (h : s.Run points out) : ∀ p ∈ points.head?, s.Rows P Q p out := by
  have first {p row out id rest table input} (h : s.Rows P Q p (row :: out))
      (hpath : p.path = id :: rest) (hr : s.row? id = some (table, input)) : P table input row := by
    have hout := h.out
    rw [hpath, List.forall₂_cons] at hout
    exact hout.1 hr
  induction h with
  | start =>
    rintro _ ⟨⟩
    have hslot {id table input slot} (hr : s.row? id = some (table, input))
        (hp : s.initial.slot? id = some slot) : slot = .pending input.cells := by
      rw [slot?_initial, hr] at hp
      cases hp
      rfl
    refine ⟨fun hr hp => ?_, fun hr hp => ?_, .nil⟩ <;> cases hslot hr hp
    exact hinput hr
  | enter _ hp ih =>
    rintro _ ⟨⟩
    exact (ih _ rfl).enter hp
  | finish _ hpath hr hi ih =>
    rintro _ ⟨⟩
    have hq := ih _ rfl
    refine hq.leave hpath hr nofun fun _ h => ?_
    cases h
    exact hwhole hr (first hq hpath hr) hi
  | abandon _ hpath hr hds hi ih =>
    rintro _ ⟨⟩
    have hq := ih _ rfl
    refine hq.leave hpath hr (fun _ h => ?_) nofun
    cases h
    exact hpart hr (first hq hpath hr) hds hi

end

/-- The progress is a point of a run. -/
def Reached (s : Store) (p : Progress) : Prop := ∃ past out, s.Run (p :: past) out

theorem reached_initial (s : Store) : s.Reached s.initial := ⟨[], [], .start⟩

theorem Reached.sound (h : s.Reached p) : s.Sound p :=
  let ⟨_, _, h⟩ := h; h.sound p rfl

theorem Reached.enter (h : s.Reached p) (hp : p.slot? id = some (.pending row)) :
    s.Reached (p.enter id) :=
  let ⟨_, _, h⟩ := h; ⟨_, _, h.enter hp⟩

/-- From a point of a run the computation leads to another, in the same calls. -/
def Tame (s : Store) {ε α : Type} (x : ExceptT ε (StateM Progress) α) : Prop :=
  ∀ p, s.Reached p → s.Reached (runFrom p x).2 ∧ p.Advance (runFrom p x).2

theorem Tame.of_same {ε α : Type} {x : ExceptT ε (StateM Progress) α}
    (h : ∀ p, (runFrom p x).2 = p) :
    s.Tame x := by
  intro p hp
  rw [h]
  exact ⟨hp, .refl p⟩

theorem Tame.bind {ε α β : Type} {x : ExceptT ε (StateM Progress) α}
    {f : α → ExceptT ε (StateM Progress) β} (hx : s.Tame x) (hf : ∀ v, s.Tame (f v)) :
    s.Tame (x >>= f) := by
  intro p hp
  obtain ⟨hr₁, ha₁⟩ := hx p hp
  rw [runFrom_bind]
  rcases hb : runFrom p x with ⟨e | v, q⟩ <;> rw [hb] at hr₁ ha₁
  · exact ⟨hr₁, ha₁⟩
  · obtain ⟨hr₂, ha₂⟩ := hf v q hr₁
    exact ⟨hr₂, ha₁.trans ha₂⟩

/-- What is recorded of a computation is true of the computation. -/
theorem Tame.of_extends {ε α : Type} {x : ExceptT ε (StateM History) α}
    {y : ExceptT ε (StateM Progress) α} (hx : s.Extends x) (hy : Erases x y) : s.Tame y := by
  rintro p ⟨past, out, h⟩
  obtain ⟨hr, ha⟩ := hx ⟨p, past⟩ out h
  rw [show runFrom p y = _ from hy ⟨p, past⟩]
  exact ⟨⟨_, out, hr⟩, ha⟩

theorem tame_materialize (s : Store) (depth : Nat) (id : RowId) : s.Tame (s.materialize depth id) :=
  .of_extends (materialize_extends s depth id) (erases_materialize s depth id)

theorem tame_lookupBy (s : Store) (depth : Nat) (name : String) (key : Scalar) :
    s.Tame (s.lookupBy (s.materialize depth) name key) :=
  .of_extends (lookupBy_extends (materialize_extends s depth) name key)
    (erases_lookupBy (erases_materialize s depth) name key)

theorem tame_forM (s : Store) (depth : Nat) (visits : List RowId) :
    s.Tame (visits.forM (s.materialize depth)) :=
  .of_extends (forM_extends s depth visits) (.forM (erases_materialize s depth) visits)

/-- Computing columns goes from reached states to reached states. -/
theorem reached_compute (depth : Nat) (ds : List Definition) (row : Row) (h : s.Reached p) :
    s.Reached (compute (m := StateM Progress) (s.lookupBy (s.materialize depth)) ds row p).2 ∧
      p.Advance (compute (m := StateM Progress) (s.lookupBy (s.materialize depth)) ds row p).2 := by
  obtain ⟨past, out, h⟩ := h
  obtain ⟨hr, ha⟩ := compute_extends (lookupBy_extends (materialize_extends s depth)) ds row
    ⟨p, past⟩ out h
  have he := erases_compute (erases_lookupBy (s := s) (erases_materialize s depth)) ds row
    (⟨p, past⟩ : History)
  rw [show compute (m := StateM Progress) _ ds row p = _ from he]
  exact ⟨⟨_, out, hr⟩, ha⟩

/-! ## How the computation of a row ends -/

section
variable {table : InputTable} {input : InputRow} {depth : Nat} {p' : Progress}

/-- A row that is computed was done before, or was pending and no formula failed. -/
theorem of_materialize_ok {u : Unit} (hs : s.Sound p) (hr : s.row? id = some (table, input))
    (h : runFrom p (s.materialize depth id) = (.ok u, p')) :
    (∃ row, p.slot? id = some (.done row) ∧ p' = p) ∨
    ∃ d row row' q, depth = d + 1 ∧ p.slot? id = some (.pending row) ∧
      compute (m := StateM Progress) (s.lookupBy (s.materialize d)) table.computed row
        (p.enter id) =
        ((row', none), q) ∧ p' = q.leave id (.done row') := by
  rcases hp : p.slot? id with _ | row | _ | row
  · have := hs.slot?_isSome id
    rw [hp, hr] at this
    cases this
  · match depth with
    | 0 => rw [runFrom_materialize_zero (a := p) hr hp] at h; cases h
    | d + 1 =>
      rw [runFrom_materialize_succ (a := p) hr hp] at h
      rcases hc : compute (m := StateM Progress) (s.lookupBy (s.materialize d)) table.computed row
        (p.enter id) with ⟨⟨row', _ | _⟩, q⟩ <;> simp only [change_progress, hc] at h <;> cases h
      exact .inr ⟨d, row, row', q, rfl, rfl, hc, rfl⟩
  · rw [runFrom_materialize_of_visiting (a := p) hr hp] at h; cases h
  · rw [runFrom_materialize_of_done (a := p) hp] at h
    cases h
    exact .inl ⟨row, rfl, rfl⟩

/-- A row cannot be computed if it is being computed or no more rows may be begun, or if it is
pending and a formula fails. -/
theorem of_materialize_error {e : Diagnostic} (hr : s.row? id = some (table, input))
    (h : runFrom p (s.materialize depth id) = (.error e, p')) :
    (e = (s.cycle p.path id).toDiagnostic ∧ p' = p ∧
      (p.slot? id = some .visiting ∨ depth = 0 ∧ ∃ row, p.slot? id = some (.pending row))) ∨
    ∃ d row row' column error q, depth = d + 1 ∧ p.slot? id = some (.pending row) ∧
      compute (m := StateM Progress) (s.lookupBy (s.materialize d)) table.computed row
        (p.enter id) =
        ((row', some (column, error)), q) ∧
      e = failure table input column error ∧ p' = q.leave id (.pending row') := by
  rcases hp : p.slot? id with _ | row | _ | row
  · rw [runFrom_materialize_of_slot?_eq_none (a := p) hp] at h; cases h
  · match depth with
    | 0 =>
      rw [runFrom_materialize_zero (a := p) hr hp] at h
      cases h
      exact .inl ⟨rfl, rfl, .inr ⟨rfl, row, rfl⟩⟩
    | d + 1 =>
      rw [runFrom_materialize_succ (a := p) hr hp] at h
      rcases hc : compute (m := StateM Progress) (s.lookupBy (s.materialize d)) table.computed row
        (p.enter id) with ⟨⟨row', _ | ⟨column, error⟩⟩, q⟩ <;>
          simp only [change_progress, hc] at h <;>
        cases h
      exact .inr ⟨d, row, row', column, error, q, rfl, rfl, hc, rfl, rfl⟩
  · rw [runFrom_materialize_of_visiting (a := p) hr hp] at h
    cases h
    exact .inl ⟨rfl, rfl, .inl rfl⟩
  · rw [runFrom_materialize_of_done (a := p) hp] at h; cases h

/-- After its computation a row is done. -/
theorem done_of_materialize_ok {u : Unit} (hp : s.Reached p) (hr : s.row? id = some (table, input))
    (h : runFrom p (s.materialize depth id) = (.ok u, p')) :
    ∃ row, p'.slot? id = some (.done row) := by
  rcases of_materialize_ok hp.sound hr h with
    ⟨row, hd, rfl⟩ | ⟨d, row, row', q, rfl, hpend, hc, rfl⟩
  · exact ⟨row, hd⟩
  · have ha := (reached_compute d table.computed row (hp.enter hpend)).2
    rw [hc] at ha
    have hv : (p.enter id).slot? id = some .visiting := by simp [Progress.slot?_enter, hpend]
    exact ⟨row', by simp [Progress.slot?_leave, (ha.visiting id).2 hv]⟩

/-- After a computation of some rows they are done. -/
theorem done_of_forM_ok {u : Unit} {visits : List RowId} (hp : s.Reached p)
    (h : runFrom p (visits.forM (s.materialize depth)) = (.ok u, p')) (hv : id ∈ visits)
    (hr : s.row? id = some (table, input)) : ∃ row, p'.slot? id = some (.done row) := by
  induction visits generalizing p with
  | nil => cases hv
  | cons first rest ih =>
    have hq := (tame_materialize s depth first p hp).1
    rw [runFrom_forM_cons] at h
    rcases hm : runFrom p (s.materialize depth first) with ⟨e | v, q⟩ <;> rw [hm] at h hq
    · cases h
    rcases List.mem_cons.1 hv with rfl | hv
    · obtain ⟨row, hd⟩ := done_of_materialize_ok hp hr hm
      have ha := (tame_forM s depth rest q hq).2
      rw [show runFrom q _ = _ from h] at ha
      exact ⟨row, ha.done hd⟩
    · exact ih hq h hv

end

/-! ## What computations that succeed keep -/

/-- The computation, if it succeeds, keeps a property of the points of runs. -/
def Maintains (s : Store) (I : Progress → Prop) {ε α : Type}
    (x : ExceptT ε (StateM Progress) α) : Prop :=
  s.Tame x ∧ ∀ p v p', s.Reached p → I p → runFrom p x = (.ok v, p') → I p'

section
variable {I : Progress → Prop} {ε α β : Type}

theorem Maintains.pure (v : α) : s.Maintains I (Pure.pure v : ExceptT ε (StateM Progress) α) :=
  ⟨.of_same fun _ => rfl, by rintro p v p' - hi h; cases h; exact hi⟩

theorem Maintains.throw (e : ε) :
    s.Maintains I (MonadExcept.throw e : ExceptT ε (StateM Progress) α) :=
  ⟨.of_same fun _ => rfl, nofun⟩

theorem Maintains.bind {x : ExceptT ε (StateM Progress) α} {f : α → ExceptT ε (StateM Progress) β}
    (hx : s.Maintains I x) (hf : ∀ v, s.Maintains I (f v)) : s.Maintains I (x >>= f) := by
  refine ⟨hx.1.bind fun v => (hf v).1, fun p w p' hp hi h => ?_⟩
  have hr := (hx.1 p hp).1
  rw [runFrom_bind] at h
  rcases hb : runFrom p x with ⟨e | v, p₁⟩ <;> rw [hb] at h hr
  · cases h
  · exact (hf v).2 p₁ w p' hr (hx.2 p v p₁ hp hi hb) h

end

/-- `Maintains`, as a property that formulas keep. -/
def maintenance (s : Store) (I : Progress → Prop) :
    Simulation (StateM Progress) (StateM Progress) :=
  .ofProperty (s.Maintains I) .pure .throw .bind

variable {I : Progress → Prop} {depth : Nat}

/-- Lookups maintain what computing rows maintains. -/
theorem maintains_lookupBy (h : ∀ id, s.Maintains I (s.materialize depth id)) (name : String)
    (key : Scalar) : s.Maintains I (s.lookupBy (s.materialize depth) name key) := by
  refine ⟨tame_lookupBy s depth name key, fun p v p' hp hi hx => ?_⟩
  rw [runFrom_lookupBy] at hx
  rcases hf : s.find name key with e | id <;> rw [hf] at hx
  · cases hx
  rcases hm : runFrom p (s.materialize depth id) with ⟨d | u, p₁⟩ <;> simp only [hm] at hx <;>
    cases hx
  exact (h id).2 p u p' hp hi hm

/-- A property is kept by whole computations if it is kept when a row is entered, and when a row is
left after all its columns have been computed. -/
theorem maintains_materialize (henter : ∀ {p} id, I p → I (p.enter id))
    (hleave : ∀ {depth id table input row row' p q}, s.Reached p → I p →
      s.row? id = some (table, input) → p.slot? id = some (.pending row) →
      runFrom (p.enter id) (fill (s.lookupBy (s.materialize depth)) table.computed row) =
        (.ok row', q) →
      I q → I (q.leave id (.done row')))
    (depth : Nat) (id : RowId) : s.Maintains I (s.materialize depth id) := by
  induction depth using Nat.strongRecOn generalizing id with
  | ind depth ih =>
    refine ⟨tame_materialize s depth id, fun p u p' hp hi h => ?_⟩
    rcases hr : s.row? id with _ | ⟨table, input⟩
    · rw [runFrom_materialize_of_row?_eq_none hr] at h
      cases h
      exact hi
    · rcases of_materialize_ok hp.sound hr h with
        ⟨_, -, rfl⟩ | ⟨d, row, row', q, rfl, hpend, hc, rfl⟩
      · exact hi
      · have hl := maintains_lookupBy (ih d d.lt_succ_self)
        have hf := compute_eq_iff_fill.1 hc
        have hq :=
          (fill_rel (maintenance s I) (fun name key => ⟨rfl, hl name key⟩) table.computed row).2.2 _
            row' q (hp.enter hpend) (henter id hi) hf
        exact hleave hp hi hr hpend hf hq

theorem maintains_forM (h : ∀ id, s.Maintains I (s.materialize depth id)) (visits : List RowId) :
    s.Maintains I (visits.forM (s.materialize depth)) := by
  induction visits with
  | nil => exact .pure PUnit.unit
  | cons id visits ih => exact (h id).bind fun _ => ih

/-- Rows that are pending have their declared columns only, as before the first failure. -/
def Fresh (s : Store) (p : Progress) : Prop :=
  ∀ id table input row, s.row? id = some (table, input) → p.slot? id = some (.pending row) →
    row = input.cells

theorem fresh_initial (s : Store) : s.Fresh s.initial := by
  intro id table input row hr hp
  rw [slot?_initial, hr] at hp
  cases hp
  rfl

theorem Fresh.enter (h : s.Fresh p) (id : RowId) : s.Fresh (p.enter id) := by
  intro other table input row hr hp
  exact h other table input row hr (Progress.slot?_of_slot?_enter hp nofun)

theorem Fresh.leave (h : s.Fresh p) (id : RowId) (row : Row) :
    s.Fresh (p.leave id (.done row)) := by
  intro other table input row' hr hp
  rcases Progress.of_slot?_leave hp with ⟨-, hslot⟩ | hp
  · cases hslot
  · exact h other table input row' hr hp

theorem maintains_fresh (s : Store) (depth : Nat) (id : RowId) :
    s.Maintains s.Fresh (s.materialize depth id) :=
  maintains_materialize (fun id h => h.enter id) (fun _ _ _ _ _ h => h.leave _ _) depth id

/-! ## What stays true of later points -/

/-- The row that is found has the name and the key that were asked for. -/
theorem row?_of_find (h : s.find name key = .ok id) : ∃ table input,
    s.row? id = some (table, input) ∧ table.name = name ∧ input.key = key.toText := by
  rw [find] at h
  split at h
  · cases h
  next t ht =>
  split at h
  · cases h
  next r hr =>
  cases h
  obtain ⟨table, htable, hr⟩ := Option.bind_eq_some_iff.1 hr
  have hn := getElem?_of_lastIndex? ht
  have hk := getElem?_of_lastIndex? hr
  rw [List.getElem?_map, htable] at hn
  rw [List.getElem?_map, Option.map_eq_some_iff] at hk
  obtain ⟨input, hinput, hk⟩ := hk
  exact ⟨table, input, row?_eq_some.2 ⟨htable, hinput⟩, Option.some.inj hn, hk⟩

/-- What the left side computes successfully, the right side gives at every later point. -/
def later (s : Store) {n : Type → Type} [Monad n]
    (yields : {α : Type} → Progress → ExceptT Error n α → α → Prop)
    (pure : ∀ {α : Type} q (v : α), yields q (Pure.pure v) v)
    (bind : ∀ {α β : Type} {q} {x : ExceptT Error n α} {f : α → ExceptT Error n β} {v w},
      yields q x v → yields q (f v) w → yields q (x >>= f) w) :
    Simulation (StateM Progress) n where
  rel x y := s.Tame x ∧ ∀ p v p', s.Reached p → runFrom p x = (.ok v, p') →
    ∀ q, p'.Advance q → yields q y v
  pure a := ⟨.of_same fun _ => rfl, by rintro p v p' - h q -; cases h; exact pure q a⟩
  throw e := ⟨.of_same fun _ => rfl, nofun⟩
  bind {α β x y f g} hx hf := by
    refine ⟨hx.1.bind fun v => (hf v).1, fun p w p' hp h q hq => ?_⟩
    obtain ⟨hr, -⟩ := hx.1 p hp
    rw [runFrom_bind] at h
    rcases hb : runFrom p x with ⟨e | v, p₁⟩ <;> rw [hb] at h hr
    · cases h
    · have ha := ((hf v).1 p₁ hr).2
      rw [show runFrom p₁ (f v) = _ from h] at ha
      exact bind (hx.2 p v p₁ hp hb q (ha.trans hq)) ((hf v).2 p₁ w p' hr h q hq)

end

end TableDoc.Store
