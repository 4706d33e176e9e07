import TableDoc.Proofs.Formula.Simulation
import TableDoc.Store.Materialize

/-!
# Computing rows on a state

What `Store.materialize` and its parts do to the state that they run on, as equations: the result
and the state that `runFrom` gives. The state need only have a progress in it (`Keeps`). So the
computation can be run on a `History`, which also remembers all earlier progresses; forgetting them
gives the plain computation (`erases_materialize`).
-/

namespace TableDoc.Store

open Formula (Context Definition Error Expr Simulation)

/-- Formulas of a row can reach related things if lookups are related. -/
theorem agree_rowContext {m n : Type → Type} [Monad m] [Monad n] (R : Simulation m n)
    {f : String → Scalar → ExceptT Error m Row} {g : String → Scalar → ExceptT Error n Row}
    (h : ∀ name key, R.rel (f name key) (g name key)) (row : Row) :
    R.Agree (rowContext f row) (rowContext g row) :=
  ⟨R.reference_of_resolve rfl, h, fun _ _ => R.throw _⟩

/-- The row with the values of some columns inserted. -/
inductive Inserted : List Definition → Row → Row → Prop
  | nil : Inserted [] row row
  | cons : Inserted ds (row.insert d.name v) row' → Inserted (d :: ds) row row'

/-- Inserts the values of columns one after another, as long as no formula fails. -/
def fill {m : Type → Type} [Monad m] (lookup : String → Scalar → ExceptT Error m Row) :
    List Definition → Row → ExceptT Error m Row
  | [], row => return row
  | d :: ds, row => do
    let value ← d.formula.evaluate (rowContext lookup row)
    fill lookup ds (row.insert d.name value)

/-- Related lookups fill rows in related ways. -/
theorem fill_rel {m m' : Type → Type} [Monad m] [LawfulMonad m] [Monad m'] [LawfulMonad m']
    (R : Simulation m m') {f : String → Scalar → ExceptT Error m Row}
    {g : String → Scalar → ExceptT Error m' Row} (h : ∀ name key, R.rel (f name key) (g name key))
    (ds : List Definition) (row : Row) :
    R.rel (fill f ds row) (fill g ds row) := by
  induction ds generalizing row with
  | nil => exact R.pure row
  | cons d ds ih => exact R.bind ((agree_rowContext R h row).evaluate d.formula) fun _ => ih _

/-! ## States that keep a progress -/

/-- A state has a progress in it, which is read and changed as the state of the monad. -/
class Keeps (σ : Type) [MonadStateOf Progress (StateM σ)] where
  now : σ → Progress
  change : (Progress → Progress) → σ → σ
  now_change : ∀ f a, now (change f a) = f (now a)
  get_eq : ∀ a, (getThe Progress : StateM σ Progress) a = (now a, a)
  modify_eq : ∀ f a, (modifyThe Progress f : StateM σ Unit) a = ((), change f a)

open Keeps

instance : Keeps Progress := ⟨id, id, fun _ _ => rfl, fun _ => rfl, fun _ _ => rfl⟩

@[simp] theorem now_progress (p : Progress) : now p = p := rfl

@[simp] theorem change_progress (f : Progress → Progress) (p : Progress) : change f p = f p := rfl

/-- A progress and all earlier ones of a run, the latest first. -/
structure History where
  now : Progress
  past : List Progress

/-- All points of a run, the latest first. -/
def History.points (h : History) : List Progress := h.now :: h.past

instance : MonadStateOf Progress (StateM History) where
  get h := (h.now, h)
  set p h := ((), ⟨p, h.points⟩)
  modifyGet f h := ((f h.now).1, ⟨(f h.now).2, h.points⟩)

instance : Keeps History :=
  ⟨History.now, fun f h => ⟨f h.now, h.points⟩, fun _ _ => rfl, fun _ => rfl, fun _ _ => rfl⟩

section
variable {σ ε α β : Type}

/-- The result of a computation that starts in a state, and the state in which it ends. -/
def runFrom (a : σ) (x : ExceptT ε (StateM σ) α) : Except ε α × σ := x a

@[simp] theorem runFrom_pure (a : σ) (v : α) :
    runFrom a (pure v : ExceptT ε (StateM σ) α) = (.ok v, a) := rfl

@[simp] theorem runFrom_throw (a : σ) (e : ε) :
    runFrom a (throw e : ExceptT ε (StateM σ) α) = (.error e, a) := rfl

theorem runFrom_bind (a : σ) (x : ExceptT ε (StateM σ) α) (f : α → ExceptT ε (StateM σ) β) :
    runFrom a (x >>= f) = match runFrom a x with
      | (.ok v, b) => runFrom b (f v)
      | (.error e, b) => (.error e, b) := by
  simp only [runFrom, bind, ExceptT.bind, ExceptT.mk, StateT.bind]
  rcases x a with ⟨_ | _, b⟩ <;> rfl

theorem runFrom_forM_cons (a : σ) (x : β → ExceptT ε (StateM σ) Unit) (i : β) (is : List β) :
    runFrom a ((i :: is).forM x) = match runFrom a (x i) with
      | (.ok _, b) => runFrom b (is.forM x)
      | (.error e, b) => (.error e, b) := by
  refine (runFrom_bind a (x i) fun _ => is.forM x).trans ?_
  rcases runFrom a (x i) with ⟨_ | _, b⟩ <;> rfl

/-- Items are gone through up to the first one that fails. -/
theorem runFrom_forM_eq_error_iff {x : β → ExceptT ε (StateM σ) Unit} {is : List β} {e : ε}
    {a c : σ} :
    runFrom a (is.forM x) = (.error e, c) ↔ ∃ before i after b, is = before ++ i :: after ∧
      runFrom a (before.forM x) = (.ok (), b) ∧ runFrom b (x i) = (.error e, c) := by
  induction is generalizing a with
  | nil =>
    constructor
    · nofun
    · rintro ⟨before, _, _, _, his, -⟩
      cases before <;> cases his
  | cons first is ih =>
    rw [runFrom_forM_cons]
    constructor
    · intro h
      rcases hx : runFrom a (x first) with ⟨e | ⟨⟩, b⟩ <;> rw [hx] at h
      · cases h
        exact ⟨[], first, is, a, rfl, rfl, hx⟩
      · obtain ⟨before, i, after, b', rfl, hbefore, hi⟩ := ih.1 h
        refine ⟨first :: before, i, after, b', rfl, ?_, hi⟩
        rw [runFrom_forM_cons, hx]
        exact hbefore
    · rintro ⟨before, i, after, b, his, hbefore, hi⟩
      cases before with
      | nil =>
        cases his
        cases hbefore
        rw [hi]
      | cons head before =>
        cases his
        rw [runFrom_forM_cons] at hbefore
        rcases hx : runFrom a (x first) with ⟨e | ⟨⟩, b'⟩ <;> rw [hx] at hbefore
        · cases hbefore
        · exact ih.2 ⟨before, i, after, b, rfl, hbefore, hi⟩

theorem runFrom_adapt {ε' : Type} (a : σ) (f : ε → ε') (x : ExceptT ε (StateM σ) α) :
    runFrom a (x.adapt f) = match runFrom a x with
      | (.ok v, b) => (.ok v, b)
      | (.error e, b) => (.error (f e), b) := by
  change ((runFrom a x).1.mapError f, (runFrom a x).2) = _
  rcases runFrom a x with ⟨_ | _, b⟩ <;> rfl

theorem runFrom_exceptLift (a : σ) (x : StateM σ α) :
    runFrom a (ExceptT.lift x : ExceptT ε (StateM σ) α) = (.ok (x a).1, (x a).2) := rfl

theorem runFrom_lift (a : σ) : ∀ x : Except ε α,
    runFrom a (liftM x : ExceptT ε (StateM σ) α) = (x, a)
  | .ok _ => rfl
  | .error _ => rfl

theorem compute_nil (lookup : String → Scalar → ExceptT Error (StateM σ) Row) (row : Row) (a : σ) :
    compute lookup [] row a = ((row, none), a) := rfl

theorem compute_cons (lookup : String → Scalar → ExceptT Error (StateM σ) Row) (d : Definition)
    (ds : List Definition) (row : Row) (a : σ) :
    compute lookup (d :: ds) row a =
      match runFrom a (d.formula.evaluate (rowContext lookup row)) with
      | (.ok v, b) => compute lookup ds (row.insert d.name v) b
      | (.error e, b) => ((row, some (d.name, e)), b) := by
  simp only [compute, ExceptT.run, bind, StateT.bind, runFrom]
  rcases d.formula.evaluate (rowContext lookup row) a with ⟨_ | _, b⟩ <;> rfl

/-- The row that computing ends with has the columns inserted up to the one that fails. -/
theorem inserted_compute (lookup : String → Scalar → ExceptT Error (StateM σ) Row)
    (ds : List Definition) (row : Row) (a : σ) :
    let result := (compute lookup ds row a).1
    ∃ ds', ds' <+: ds ∧ (result.2 = none → ds' = ds) ∧ Inserted ds' row result.1 := by
  induction ds generalizing row a with
  | nil => exact ⟨[], List.prefix_rfl, fun _ => rfl, .nil⟩
  | cons d ds ih =>
    rw [compute_cons]
    rcases runFrom a (d.formula.evaluate (rowContext lookup row)) with ⟨e | v, b⟩
    · exact ⟨[], List.nil_prefix, nofun, .nil⟩
    · obtain ⟨ds', hp, hn, hi⟩ := ih (row.insert d.name v) b
      exact ⟨d :: ds', (List.prefix_cons_inj d).2 hp, fun h => by rw [hn h], .cons hi⟩

/-- Columns that are all computed are those that are filled in. -/
theorem compute_eq_iff_fill {lookup : String → Scalar → ExceptT Error (StateM σ) Row}
    {ds : List Definition} {row row' : Row} {a b : σ} :
    compute lookup ds row a = ((row', none), b) ↔
      runFrom a (fill lookup ds row) = (.ok row', b) := by
  induction ds generalizing row a with
  | nil =>
    rw [compute_nil, fill, runFrom_pure]
    constructor <;> (intro h; cases h; rfl)
  | cons d ds ih =>
    rw [compute_cons, fill, runFrom_bind]
    rcases runFrom a (d.formula.evaluate (rowContext lookup row)) with ⟨e | v, a'⟩
    · constructor <;> nofun
    · exact ih

/-- Computing ends at the first column whose formula fails. -/
theorem compute_eq_failed_iff {lookup : String → Scalar → ExceptT Error (StateM σ) Row}
    {ds : List Definition} {row row' : Row} {column : String} {e : Error} {a b : σ} :
    compute lookup ds row a = ((row', some (column, e)), b) ↔
      ∃ before d after a', ds = before ++ d :: after ∧ d.name = column ∧
        runFrom a (fill lookup before row) = (.ok row', a') ∧
        runFrom a' (d.formula.evaluate (rowContext lookup row')) = (.error e, b) := by
  induction ds generalizing row a with
  | nil =>
    rw [compute_nil]
    constructor
    · nofun
    · rintro ⟨before, _, _, _, hds, -⟩
      cases before <;> cases hds
  | cons d ds ih =>
    rw [compute_cons]
    constructor
    · intro h
      rcases hd : runFrom a (d.formula.evaluate (rowContext lookup row)) with ⟨e | v, a'⟩ <;>
        rw [hd] at h
      · cases h
        exact ⟨[], d, ds, a, rfl, rfl, rfl, hd⟩
      · obtain ⟨before, last, after, b, rfl, hname, hfill, hlast⟩ := ih.1 h
        refine ⟨d :: before, last, after, b, rfl, hname, ?_, hlast⟩
        rw [fill, runFrom_bind, hd]
        exact hfill
    · rintro ⟨before, last, after, b, hds, hname, hfill, hlast⟩
      cases before with
      | nil =>
        cases hds
        cases hfill
        rw [hlast, hname]
      | cons first before =>
        cases hds
        rw [fill, runFrom_bind] at hfill
        rcases hd : runFrom a (d.formula.evaluate (rowContext lookup row)) with ⟨e | v, a'⟩ <;>
          rw [hd] at hfill
        · cases hfill
        · exact ih.2 ⟨before, last, after, b, rfl, hname, hfill, hlast⟩

variable [MonadStateOf Progress (StateM σ)] [Keeps σ]

@[simp] theorem runFrom_get (a : σ) :
    runFrom a (getThe Progress : ExceptT ε (StateM σ) Progress) = (.ok (now a), a) := by
  have h := runFrom_exceptLift (ε := ε) a (getThe Progress)
  rw [get_eq] at h
  exact h

@[simp] theorem runFrom_modify (a : σ) (f : Progress → Progress) :
    runFrom a (modifyThe Progress f : ExceptT ε (StateM σ) Unit) = (.ok (), change f a) := by
  have h := runFrom_exceptLift (ε := ε) a (modifyThe Progress f)
  rw [modify_eq] at h
  exact h

/-! ## What the computations of rows do -/

variable {s : Store} {id : RowId} {row : Row} {table : InputTable} {input : InputRow} {depth : Nat}
  {a : σ}

/-- A lookup finds the row, computes it and gives it. -/
theorem runFrom_lookupBy (f : RowId → ExceptT Diagnostic (StateM σ) Unit) (name : String)
    (key : Scalar) :
    runFrom a (s.lookupBy f name key) =
      match s.find name key with
      | .error e => (.error e, a)
      | .ok id => match runFrom a (f id) with
        | (.ok _, b) => (.ok ((now b).row id), b)
        | (.error d, b) => (.error (.inner d), b) := by
  simp only [lookupBy, runFrom_bind, runFrom_lift, runFrom_adapt]
  cases s.find name key with
  | error e => rfl
  | ok id =>
    rcases h : runFrom a (f id) with ⟨d | u, b⟩
    · simp only [h]
    · simp only [h, runFrom_get, runFrom_pure]

theorem runFrom_materialize_of_slot?_eq_none (hp : (now a).slot? id = none) :
    runFrom a (s.materialize depth id) = (.ok (), a) := by
  cases hr : s.row? id <;> cases depth <;>
    simp only [materialize, hr, runFrom_bind, runFrom_get, hp, runFrom_pure]

theorem runFrom_materialize_of_done (hp : (now a).slot? id = some (.done row)) :
    runFrom a (s.materialize depth id) = (.ok (), a) := by
  cases hr : s.row? id <;> cases depth <;>
    simp only [materialize, hr, runFrom_bind, runFrom_get, hp, runFrom_pure]

omit [Keeps σ] in
theorem runFrom_materialize_of_row?_eq_none (hr : s.row? id = none) :
    runFrom a (s.materialize depth id) = (.ok (), a) := by
  cases depth <;> simp only [materialize, hr, runFrom_pure]

section
variable (hr : s.row? id = some (table, input))
include hr

theorem runFrom_materialize_of_visiting (hp : (now a).slot? id = some .visiting) :
    runFrom a (s.materialize depth id) = (.error (s.cycle (now a).path id).toDiagnostic, a) := by
  cases depth <;> simp only [materialize, hr, runFrom_bind, runFrom_get, hp, runFrom_throw]

theorem runFrom_materialize_zero (hp : (now a).slot? id = some (.pending row)) :
    runFrom a (s.materialize 0 id) = (.error (s.cycle (now a).path id).toDiagnostic, a) := by
  simp only [materialize, hr, runFrom_bind, runFrom_get, hp, runFrom_throw]

/-- A pending row is entered and computed; then it is put back, done or as far as it came. -/
theorem runFrom_materialize_succ (hp : (now a).slot? id = some (.pending row)) :
    runFrom a (s.materialize (depth + 1) id) =
      match compute (m := StateM σ) (s.lookupBy (s.materialize depth)) table.computed row
        (change (·.enter id) a) with
      | ((row, none), b) => (.ok (), change (·.leave id (.done row)) b)
      | ((row, some (column, error)), b) =>
        (.error (failure table input column error), change (·.leave id (.pending row)) b) := by
  simp only [materialize, hr, runFrom_bind, runFrom_get, hp, runFrom_modify, runFrom_exceptLift]
  rcases compute (m := StateM σ) (s.lookupBy (s.materialize depth)) table.computed row
    (change (·.enter id) a) with ⟨⟨row, _ | ⟨column, error⟩⟩, b⟩
  · simp only [runFrom_modify]
  · simp only [runFrom_bind, runFrom_modify, runFrom_throw]

end

/-! ## Forgetting earlier points -/

/-- But for what a state has beside the progress, the computations are the same. -/
def Erases (x : ExceptT ε (StateM σ) α) (y : ExceptT ε (StateM Progress) α) : Prop :=
  ∀ a, runFrom (now a) y = ((runFrom a x).1, now (runFrom a x).2)

theorem Erases.bind {x : ExceptT ε (StateM σ) α} {y : ExceptT ε (StateM Progress) α}
    {f : α → ExceptT ε (StateM σ) β} {g : α → ExceptT ε (StateM Progress) β} (hx : Erases x y)
    (hf : ∀ v, Erases (f v) (g v)) : Erases (x >>= f) (y >>= g) := by
  intro a
  rw [runFrom_bind, runFrom_bind, hx a]
  rcases runFrom a x with ⟨e | v, b⟩
  · rfl
  · exact hf v b

/-- `Erases`, as a relation that formulas keep. -/
def erasure (σ : Type) [MonadStateOf Progress (StateM σ)] [Keeps σ] :
    Simulation (StateM σ) (StateM Progress) where
  rel := Erases
  pure _ _ := rfl
  throw _ _ := rfl
  bind := .bind

theorem erases_lookupBy {f : RowId → ExceptT Diagnostic (StateM σ) Unit}
    {g : RowId → ExceptT Diagnostic (StateM Progress) Unit} (h : ∀ id, Erases (f id) (g id))
    (name : String) (key : Scalar) :
    Erases (s.lookupBy f name key) (s.lookupBy g name key) := by
  intro a
  rw [runFrom_lookupBy, runFrom_lookupBy]
  cases s.find name key with
  | error e => rfl
  | ok id =>
    simp only [h id a]
    rcases runFrom a (f id) with ⟨d | u, b⟩ <;> rfl

theorem erases_compute {f : String → Scalar → ExceptT Error (StateM σ) Row}
    {g : String → Scalar → ExceptT Error (StateM Progress) Row}
    (h : ∀ name key, Erases (f name key) (g name key)) (ds : List Definition) (row : Row) (a : σ) :
    compute g ds row (now a) = ((compute f ds row a).1, now (compute f ds row a).2) := by
  induction ds generalizing row a with
  | nil => rfl
  | cons d ds ih =>
    have hd := (agree_rowContext (erasure σ) h row).evaluate d.formula a
    rw [compute_cons, compute_cons, hd]
    rcases runFrom a (d.formula.evaluate (rowContext f row)) with ⟨e | v, b⟩
    · rfl
    · exact ih _ b

/-- Keeping a history does not change how rows are computed. -/
theorem erases_materialize (s : Store) : ∀ (depth : Nat) (id : RowId),
    Erases (σ := σ) (s.materialize depth id) (s.materialize depth id) := by
  intro depth id a
  rcases hr : s.row? id with _ | ⟨table, input⟩
  · rw [runFrom_materialize_of_row?_eq_none hr, runFrom_materialize_of_row?_eq_none hr]
  rcases hp : (now a).slot? id with _ | row | _ | row
  · rw [runFrom_materialize_of_slot?_eq_none hp,
      runFrom_materialize_of_slot?_eq_none (a := now a) hp]
  · match depth with
    | 0 => rw [runFrom_materialize_zero hr hp, runFrom_materialize_zero (a := now a) hr hp]; rfl
    | depth + 1 =>
      have h :=
        erases_compute (erases_lookupBy (s := s) (erases_materialize s depth)) table.computed row
          (change (·.enter id) a)
      rw [now_change] at h
      rw [runFrom_materialize_succ hr hp, runFrom_materialize_succ (a := now a) hr hp]
      rw [change_progress, h]
      rcases compute (m := StateM σ) (s.lookupBy (s.materialize depth)) table.computed row
        (change (·.enter id) a) with ⟨⟨row, _ | ⟨column, error⟩⟩, b⟩ <;>
        simp only [now_change, change_progress]
  · rw [runFrom_materialize_of_visiting hr hp, runFrom_materialize_of_visiting (a := now a) hr hp]
    rfl
  · rw [runFrom_materialize_of_done hp, runFrom_materialize_of_done (a := now a) hp]

theorem Erases.forM {x : RowId → ExceptT ε (StateM σ) Unit}
    {y : RowId → ExceptT ε (StateM Progress) Unit} (h : ∀ id, Erases (x id) (y id))
    (ids : List RowId) : Erases (ids.forM x) (ids.forM y) := by
  induction ids with
  | nil => exact fun _ => rfl
  | cons id ids ih => exact (h id).bind fun _ => ih

end

end TableDoc.Store
