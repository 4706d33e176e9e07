import Mathlib.Data.Finset.Dedup
import Mathlib.Data.Finset.Order
import TableDoc.Proofs.Store.Run

/-!
# Computing rows by recursion

`Store.recomputeAt` computes a row from its declared columns alone and answers every lookup by
computing the row that it finds in the same way; nothing is kept. It is undefined if a formula fails
or if the lookups do not end. The store, which keeps the rows that are done and computes no row
twice, gives the same rows: it succeeds just if all rows can be computed so (`forM_ok_iff`), in
whatever order they are visited, and then every row is the one that comes out
(`recomputesAt_of_forM_ok`).

A row that is done is a recomputed one, since what a formula found in the store it finds again in
the rows that are done later (`later`). A row that can be recomputed with lookups nested `n` deep
can be computed as long as no row that is being computed can be recomputed so (`Ready`): the rows
looked up need fewer, so they are not being computed, and no lookup leads back.
-/

namespace TableDoc.Store

open Formula (Error Simulation)

/-- Answers a lookup by computing the row that the store finds. -/
def answerAt (s : Store) (compute : RowId → ExceptT Error Option Row) (name : String)
    (key : Scalar) :
    ExceptT Error Option Row :=
  match s.find name key with
  | .ok id => compute id
  | .error error => throw error

/-- Computes a row from its declared columns, with lookups nested at most `depth` deep. -/
def recomputeAt (s : Store) : Nat → RowId → ExceptT Error Option Row
  | 0, _ => ExceptT.mk none
  | depth + 1, id =>
    match s.row? id with
    | some (table, input) => fill (s.answerAt (s.recomputeAt depth)) table.computed input.cells
    | none => ExceptT.mk none

/-- The row that comes out if lookups may be nested as deep as they need. -/
def RecomputesAt (s : Store) (id : RowId) (row : Row) : Prop :=
  ∃ depth, (s.recomputeAt depth id).run = some (.ok row)

variable {s : Store} {id : RowId} {row row' : Row} {table : InputTable} {input : InputRow}
  {name : String} {key : Scalar} {n k : Nat} {p q p' : Progress}

theorem recomputeAt_succ (hr : s.row? id = some (table, input)) (n : Nat) :
    s.recomputeAt (n + 1) id =
      fill (s.answerAt (s.recomputeAt n)) table.computed input.cells := by
  rw [recomputeAt, hr]

/-! ## Deeper lookups -/

theorem run_bind_eq_some_ok {α β : Type} {x : ExceptT Error Option α}
    {f : α → ExceptT Error Option β} {w : β} :
    (x >>= f).run = some (.ok w) ↔ ∃ v, x.run = some (.ok v) ∧ (f v).run = some (.ok w) := by
  rw [ExceptT.run_bind]
  rcases x.run with _ | _ | v <;> simp

/-- What succeeds on the left succeeds on the right, with the same value. -/
def refinement : Simulation Option Option where
  rel x y := ∀ v, x.run = some (.ok v) → y.run = some (.ok v)
  pure _ _ h := h
  throw _ _ h := h
  bind hx hf w h := by
    obtain ⟨v, hv, hw⟩ := run_bind_eq_some_ok.1 h
    exact run_bind_eq_some_ok.2 ⟨v, hx v hv, hf v w hw⟩

/-- A row that is recomputed stays so if more calls are allowed. -/
theorem recomputeAt_mono (h : n ≤ k) : ∀ {id row},
    (s.recomputeAt n id).run = some (.ok row) → (s.recomputeAt k id).run = some (.ok row) := by
  induction n generalizing k with
  | zero => nofun
  | succ n ih =>
    intro id row hrow
    obtain ⟨k, rfl⟩ : ∃ k', k = k' + 1 := ⟨k - 1, by omega⟩
    rcases hr : s.row? id with _ | ⟨table, input⟩
    · rw [recomputeAt, hr] at hrow
      cases hrow
    rw [recomputeAt_succ hr] at hrow ⊢
    refine fill_rel refinement (fun name key row hrow => ?_) table.computed input.cells row hrow
    unfold answerAt at hrow ⊢
    split at hrow
    · exact ih (by omega) hrow
    · cases hrow

/-- A row is recomputed in one way only. -/
theorem RecomputesAt.unique (h : s.RecomputesAt id row) (h' : s.RecomputesAt id row') :
    row = row' := by
  obtain ⟨n, h⟩ := h
  obtain ⟨k, h'⟩ := h'
  have h₁ := recomputeAt_mono (Nat.le_max_left n k) h
  rw [recomputeAt_mono (Nat.le_max_right n k) h'] at h₁
  cases h₁
  rfl

/-! ## Rows that are done are recomputed rows -/

/-- Rows that are pending have their declared columns only, and rows that are done are recomputed.
-/
structure Agrees (s : Store) (p : Progress) : Prop where
  fresh : s.Fresh p
  done : ∀ {id row}, p.slot? id = some (.done row) → s.RecomputesAt id row

theorem agrees_initial (s : Store) : s.Agrees s.initial where
  fresh := fresh_initial s
  done {id _} hp := by
    rw [slot?_initial] at hp
    cases hr : s.row? id <;> rw [hr] at hp <;> cases hp

theorem Agrees.enter (h : s.Agrees p) (id : RowId) : s.Agrees (p.enter id) where
  fresh := h.fresh.enter id
  done hp := h.done (Progress.slot?_of_slot?_enter hp nofun)

theorem Agrees.leave (h : s.Agrees q) (hrow : s.RecomputesAt id row) :
    s.Agrees (q.leave id (.done row)) where
  fresh := h.fresh.leave id row
  done hp := by
    rcases Progress.of_slot?_leave hp with ⟨rfl, hslot⟩ | hp
    · cases hslot
      exact hrow
    · exact h.done hp

/-- All rows that are done are recomputed with lookups nested at most `n` deep. -/
def Bounded (s : Store) (n : Nat) (q : Progress) : Prop :=
  ∀ {id row}, q.slot? id = some (.done row) → (s.recomputeAt n id).run = some (.ok row)

/-- Some number of calls is enough for all rows that are done. -/
theorem Agrees.exists_bounded (hs : s.Sound q) (h : s.Agrees q) : ∃ n, s.Bounded n q := by
  have one : ∀ id, ∃ n, ∀ {row}, q.slot? id = some (.done row) →
      (s.recomputeAt n id).run = some (.ok row) := by
    intro id
    by_cases hd : ∃ row, q.slot? id = some (.done row)
    · obtain ⟨row, hd⟩ := hd
      obtain ⟨n, hn⟩ := h.done hd
      refine ⟨n, fun hd' => ?_⟩
      rw [hd] at hd'
      cases hd'
      exact hn
    · exact ⟨0, fun hd' => absurd ⟨_, hd'⟩ hd⟩
  choose depth hdepth using one
  obtain ⟨n, hn⟩ := (s.ids.map depth).toFinset.exists_le
  refine ⟨n, fun {id _} hd => recomputeAt_mono (hn (depth id) ?_) (hdepth id hd)⟩
  rw [List.mem_toFinset]
  exact List.mem_map_of_mem (hs.mem_ids_of_slot? hd)

/-- What succeeds in the store also succeeds with naive answers nested `n` deep, once all rows that
are done later are recomputed so. -/
def laterRecomputed (s : Store) (n : Nat) : Simulation (StateM Progress) Option :=
  s.later (fun q y v => s.Bounded n q → y.run = some (.ok v)) (fun _ _ _ => rfl)
    fun hx hf hq => run_bind_eq_some_ok.2 ⟨_, hx hq, hf hq⟩

theorem laterRecomputed_lookupBy (s : Store) (n depth : Nat) (name : String) (key : Scalar) :
    (s.laterRecomputed n).rel (s.lookupBy (s.materialize depth) name key)
      (s.answerAt (s.recomputeAt n) name key) := by
  refine ⟨tame_lookupBy s depth name key, fun p v p' hp h q hq hb => ?_⟩
  rw [runFrom_lookupBy] at h
  rcases hf : s.find name key with e | id <;> rw [hf] at h
  · cases h
  obtain ⟨table, input, hr, -⟩ := row?_of_find hf
  rcases hm : runFrom p (s.materialize depth id) with ⟨d | u, p₁⟩ <;>
    simp only [hm] at h <;> cases h
  obtain ⟨row, hd⟩ := done_of_materialize_ok hp hr hm
  have hrow : (Keeps.now p').row id = row := by simp [Progress.row, hd, Slot.row]
  rw [hrow, answerAt, hf]
  exact hb (hq.done hd)

/-- Computing a row keeps all rows that are done as they are recomputed. -/
theorem maintains_agrees (s : Store) (depth : Nat) (id : RowId) :
    s.Maintains s.Agrees (s.materialize depth id) := by
  refine maintains_materialize (fun id ha => ha.enter id) ?_ depth id
  intro depth id table input row row' p q hp ha hr hpend hf hq
  cases ha.fresh id table input row hr hpend
  have hreached := (reached_compute depth table.computed input.cells (hp.enter hpend)).1
  rw [compute_eq_iff_fill.2 hf] at hreached
  obtain ⟨n, hn⟩ := hq.exists_bounded hreached.sound
  have hrow := (fill_rel (s.laterRecomputed n) (laterRecomputed_lookupBy s n depth) table.computed
    input.cells).2 _ row' q (hp.enter hpend) hf q (.refl q) hn
  exact hq.leave ⟨n + 1, by rw [recomputeAt_succ hr]; exact hrow⟩

/-! ## Rows that can be recomputed can be computed -/

/-- A point from which every row that can be recomputed with lookups nested `n` deep can be
computed: none of these is being computed, and enough rows may be begun. -/
structure Ready (s : Store) (n depth : Nat) (p : Progress) : Prop where
  reached : s.Reached p
  agrees : s.Agrees p
  room : s.size ≤ depth + p.path.length
  free : ∀ {id row}, p.slot? id = some .visiting → (s.recomputeAt n id).run ≠ some (.ok row)

variable {depth : Nat}

theorem Ready.anti (h : s.Ready k depth p) (hn : n ≤ k) : s.Ready n depth p :=
  { h with free := fun hv ho => h.free hv (recomputeAt_mono hn ho) }

theorem Ready.advance (h : s.Ready n depth p) (hr : s.Reached q) (ha : s.Agrees q)
    (hq : p.Advance q) :
    s.Ready n depth q where
  reached := hr
  agrees := ha
  room := hq.path ▸ h.room
  free {id _} hv := h.free ((hq.visiting id).1 hv)

/-- There is room for one more row than those that are being computed. -/
theorem Ready.pos (h : s.Ready n depth p) (hp : p.slot? id = some (.pending row)) : 0 < depth := by
  have hlen : p.path.length + 1 ≤ s.size := (h.reached.enter hp).sound.length_path_le
  have hroom := h.room
  omega

/-- A row whose recomputation takes more calls can be begun. -/
theorem Ready.enter (h : s.Ready n (depth + 1) p) (hp : p.slot? id = some (.pending row))
    (hn : ∀ row, (s.recomputeAt n id).run ≠ some (.ok row)) : s.Ready n depth (p.enter id) where
  reached := h.reached.enter hp
  agrees := h.agrees.enter id
  room := by
    have hroom := h.room
    change s.size ≤ depth + (p.path.length + 1)
    omega
  free {other _} hv := by
    rw [Progress.slot?_enter] at hv
    split at hv
    · next ho =>
      subst ho
      exact hn _
    · exact h.free hv

/-- What the naive semantics gives with lookups nested `n` deep, the store gives from every point
that is ready for it. -/
def readiness (s : Store) (n depth : Nat) : Simulation (StateM Progress) Option where
  rel x y := s.Maintains s.Agrees x ∧ ∀ p v, s.Ready n depth p → y.run = some (.ok v) →
    ∃ p', runFrom p x = (.ok v, p')
  pure a := ⟨.pure a, by rintro p v - h; cases h; exact ⟨p, rfl⟩⟩
  throw e := ⟨.throw e, nofun⟩
  bind {α β x y f g} hx hf := by
    refine ⟨hx.1.bind fun v => (hf v).1, fun p w h ho => ?_⟩
    obtain ⟨v, hv, hw⟩ := run_bind_eq_some_ok.1 ho
    obtain ⟨p₁, h₁⟩ := hx.2 p v h hv
    obtain ⟨hr, ha⟩ := hx.1.1 p h.reached
    rw [h₁] at hr ha
    have hready := h.advance hr (hx.1.2 p v p₁ h.reached h.agrees h₁) ha
    obtain ⟨p₂, h₂⟩ := (hf v).2 p₁ w hready hw
    exact ⟨p₂, by rw [runFrom_bind, h₁]; exact h₂⟩

/-- The row found by a lookup is the recomputed one. -/
theorem readiness_lookupBy
    (hm : ∀ {p id row}, s.Ready n depth p → (s.recomputeAt n id).run = some (.ok row) →
      ∃ p', runFrom p (s.materialize depth id) = (.ok (), p')) (name : String) (key : Scalar) :
    (s.readiness n depth).rel (s.lookupBy (s.materialize depth) name key)
      (s.answerAt (s.recomputeAt n) name key) := by
  have hk := maintains_agrees s depth
  refine ⟨maintains_lookupBy hk name key, fun p row h ho => ?_⟩
  rcases hf : s.find name key with e | id <;> rw [answerAt, hf] at ho
  · cases ho
  obtain ⟨table, input, hr, -⟩ := row?_of_find hf
  obtain ⟨p', hp'⟩ := hm h ho
  obtain ⟨row', hd⟩ := done_of_materialize_ok h.reached hr hp'
  have hrow' := ((hk id).2 p _ p' h.reached h.agrees hp').done hd
  cases hrow'.unique ⟨n, ho⟩
  refine ⟨p', ?_⟩
  rw [runFrom_lookupBy, hf]
  simp only [hp', now_progress, Progress.row, hd, Option.map_some, Option.getD_some, Slot.row]

/-- A row that can be recomputed is computed by the store. -/
theorem materialize_of_recomputeAt (s : Store) (n : Nat) : ∀ {depth p id row}, s.Ready n depth p →
    (s.recomputeAt n id).run = some (.ok row) →
    ∃ p', runFrom p (s.materialize depth id) = (.ok (), p') := by
  induction n with
  | zero => nofun
  | succ n ih =>
    intro depth p id row h ho
    rcases hr : s.row? id with _ | ⟨table, input⟩
    · exact ⟨p, runFrom_materialize_of_row?_eq_none hr⟩
    -- the lookups of the row need `n`, and must not lead back to it
    by_cases hn : ∃ row, (s.recomputeAt n id).run = some (.ok row)
    · obtain ⟨row, hn⟩ := hn
      exact ih (h.anti n.le_succ) hn
    rcases hp : p.slot? id with _ | cells | _ | cells
    · exact ⟨p, runFrom_materialize_of_slot?_eq_none (a := p) hp⟩
    · obtain ⟨depth, rfl⟩ := Nat.exists_eq_succ_of_ne_zero (h.pos hp).ne'
      cases h.agrees.fresh id table input cells hr hp
      have hready := (h.anti n.le_succ).enter hp (not_exists.1 hn)
      rw [recomputeAt_succ hr] at ho
      obtain ⟨q, hq⟩ := (fill_rel (s.readiness n depth) (readiness_lookupBy ih) table.computed
        input.cells).2 _ row hready ho
      rw [runFrom_materialize_succ (a := p) hr hp, change_progress, compute_eq_iff_fill.2 hq]
      exact ⟨_, rfl⟩
    · exact absurd ho (h.free hp)
    · exact ⟨p, runFrom_materialize_of_done (a := p) hp⟩

/-! ## All rows -/

variable {visits : List RowId}

/-- Rows that can be recomputed can be computed one after another. -/
theorem forM_of_recomputesAt (hv : ∀ id ∈ visits, (s.row? id).isSome → ∃ row, s.RecomputesAt id row)
    (hp : s.Reached p) (ha : s.Agrees p) (hpath : p.path = []) :
    ∃ p', runFrom p (visits.forM (s.materialize s.size)) = (.ok (), p') := by
  induction visits generalizing p with
  | nil => exact ⟨p, rfl⟩
  | cons id visits ih =>
    have hid : ∃ q, runFrom p (s.materialize s.size id) = (.ok (), q) := by
      rcases hr : s.row? id with _ | found
      · exact ⟨p, runFrom_materialize_of_row?_eq_none hr⟩
      obtain ⟨row, n, hn⟩ := hv id List.mem_cons_self (by rw [hr]; rfl)
      refine materialize_of_recomputeAt s n ⟨hp, ha, by omega, fun {other _} hvis _ => ?_⟩ hn
      have := (hp.sound.mem_path other).2 hvis
      rw [hpath] at this
      cases this
    obtain ⟨q, hq⟩ := hid
    obtain ⟨hr, hadv⟩ := tame_materialize s s.size id p hp
    rw [hq] at hr hadv
    have haq := (maintains_agrees s s.size id).2 p _ q hp ha hq
    rw [runFrom_forM_cons, hq]
    exact ih (fun other ho => hv other (List.mem_cons_of_mem _ ho)) hr haq (hadv.path.trans hpath)

/-- The rows of a run that succeeds, in whatever order they are visited, are the recomputed ones. -/
theorem recomputesAt_of_forM_ok {u : Unit} (hv : ∀ id ∈ s.ids, id ∈ visits)
    (h : runFrom s.initial (visits.forM (s.materialize s.size)) = (.ok u, p)) (hid : id ∈ s.ids) :
    ∃ row, p.slot? id = some (.done row) ∧ s.RecomputesAt id row := by
  obtain ⟨⟨table, input⟩, hr⟩ := Option.isSome_iff_exists.1 (mem_ids.1 hid)
  obtain ⟨row, hd⟩ := done_of_forM_ok (reached_initial s) h (hv id hid) hr
  have ha :=
    (maintains_forM (maintains_agrees s s.size) visits).2 _ u p (reached_initial s)
      (agrees_initial s) h
  exact ⟨row, hd, ha.done hd⟩

/-- The store succeeds just if every row can be recomputed. -/
theorem forM_ok_iff (hv : ∀ id ∈ s.ids, id ∈ visits) :
    (runFrom s.initial (visits.forM (s.materialize s.size))).1 = .ok () ↔
      ∀ id ∈ s.ids, ∃ row, s.RecomputesAt id row := by
  constructor
  · intro h id hid
    obtain ⟨row, -, hrow⟩ := recomputesAt_of_forM_ok hv (Prod.ext h rfl) hid
    exact ⟨row, hrow⟩
  · intro h
    obtain ⟨p, hp⟩ := forM_of_recomputesAt (fun id _ hr => h id (mem_ids.2 hr)) (reached_initial s)
      (agrees_initial s) rfl
    rw [hp]

theorem recomputesAt_of_materializeAll_ok
    (h : (runFrom s.initial (s.materializeAll (m := StateM Progress))).1 = .ok ())
    (hid : id ∈ s.ids) :
    s.RecomputesAt id ((runFrom s.initial (s.materializeAll (m := StateM Progress))).2.row id) := by
  obtain ⟨row, hd, hrow⟩ := recomputesAt_of_forM_ok (fun _ h => h) (Prod.ext h rfl) hid
  have hd : (runFrom s.initial (s.materializeAll (m := StateM Progress))).2.slot? id =
      some (.done row) := hd
  rw [Progress.row, hd]
  exact hrow

theorem Sound.row_eq_empty (h : s.Sound p) (hid : id ∉ s.ids) : p.row id = ∅ := by
  have hnone : p.slot? id = none := by
    rw [← Option.not_isSome_iff_eq_none, h.slot?_isSome, ← mem_ids]
    exact hid
  rw [Progress.row, hnone]
  rfl

end TableDoc.Store
