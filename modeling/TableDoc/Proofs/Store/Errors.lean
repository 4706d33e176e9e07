import TableDoc.Proofs.Diagnostic
import TableDoc.Proofs.Formula.References
import TableDoc.Proofs.Sequence
import TableDoc.Proofs.Store.Run
import TableDoc.Store.Aggregate

/-!
# How computing rows fails

A failure of a row has the place of the row, or of a row further in. Only a lookup that comes back
to a row that is being computed has none, and the row whose formula looks up completes it
(`raises_materialize`). No row is being computed when all are asked for, so what comes out then has
a place (`complete_of_materializeAll_error`).
-/

namespace TableDoc.Store

open Formula (Definition Error Expr Raises raises_iff)

variable {lines : List (List Char)} {s : Store}

/-! ## Errors on a state -/

section
variable {σ ε ε' α β : Type} {P : ε → Prop}

theorem raises_iff_runFrom {x : ExceptT ε (StateM σ) α} :
    Raises P x ↔ ∀ a, FailsAs P (runFrom a x).1 :=
  raises_iff

theorem raises_get : Raises P (get : ExceptT ε (StateM σ) σ) :=
  raises_iff_runFrom.2 fun a => .ok a

theorem raises_lift {x : Except ε α} (h : FailsAs P x) :
    Raises P (liftM x : ExceptT ε (StateM σ) α) := by
  refine raises_iff_runFrom.2 fun a => ?_
  rw [runFrom_lift]
  exact h

theorem raises_adapt {Q : ε' → Prop} {f : ε → ε'} {x : ExceptT ε (StateM σ) α} (h : Raises P x)
    (hf : ∀ e, P e → Q (f e)) : Raises Q (x.adapt f) := by
  refine raises_iff_runFrom.2 fun a => ?_
  have ha := raises_iff_runFrom.1 h a
  rw [runFrom_adapt]
  rcases hx : runFrom a x with ⟨e | v, b⟩ <;> rw [hx] at ha
  · exact .error (hf e (ha e rfl))
  · exact .ok v

theorem raises_mapM {f : α → ExceptT ε (StateM σ) β} {as : List α} (h : ∀ a ∈ as, Raises P (f a)) :
    Raises P (as.mapM f) := by
  induction as with
  | nil => exact .pure []
  | cons a as ih =>
    obtain ⟨ha, has⟩ := List.forall_mem_cons.1 h
    rw [List.mapM_cons]
    exact ha.bind fun b => (ih has).bind fun bs => .pure (b :: bs)

end

/-! ## Rows -/

/-- The rows stand inside the lines. -/
def Inside (lines : List (List Char)) (s : Store) : Prop :=
  ∀ table ∈ s.tables, ∀ input ∈ table.rows, input.span.Inside lines

variable {id : RowId} {table : InputTable} {input : InputRow}

theorem Inside.span (h : s.Inside lines) (hr : s.row? id = some (table, input)) :
    input.span.Inside lines := by
  obtain ⟨htable, hinput⟩ := row?_eq_some.1 hr
  exact h table (List.mem_of_getElem? htable) input (List.mem_of_getElem? hinput)

/-- That a row is not found is a sound error. -/
theorem sound_of_find {name : String} {key : Scalar} {e : Error} (h : s.find name key = .error e) :
    e.Sound lines := by
  rw [find] at h
  split at h
  · cases h
    exact Error.sound_of_isOwn rfl
  · split at h <;> cases h
    exact Error.sound_of_isOwn rfl

theorem raises_lookupBy {f : RowId → ExceptT Diagnostic (StateM Progress) Unit}
    (h : ∀ id, Raises (Diagnostic.Sound lines) (f id)) (name : String) (key : Scalar) :
    Raises (Error.Sound lines) (s.lookupBy f name key) := by
  refine raises_iff_runFrom.2 fun p => ?_
  rw [runFrom_lookupBy]
  rcases hfind : s.find name key with e | id
  · exact .error (sound_of_find hfind)
  · have hid := raises_iff_runFrom.1 (h id) p
    dsimp only
    rcases hf : runFrom p (f id) with ⟨d | u, q⟩ <;> rw [hf] at hid
    · exact .error (hid d rfl)
    · exact .ok _

/-- The errors of a formula are sound if those of its lookups and aggregates are. -/
theorem raises_evaluate {m : Type → Type} [Monad m] [LawfulMonad m] {c : Formula.Context m}
    (hl : ∀ name key, Raises (Error.Sound lines) (c.lookup name key))
    (ha : ∀ f column, Raises (Error.Sound lines) (c.aggregate f column)) (e : Expr) :
    Raises (Error.Sound lines) (e.evaluate c) := by
  refine Expr.raises_evaluate (fun error herror => Error.sound_of_isOwn ?_)
    (.inr fun _ => Error.sound_of_isOwn rfl) hl ha
  cases error with
  | inner d => cases herror
  | _ => rfl

/-- The error that stops a row is sound if lookups only give sound ones. -/
theorem sound_of_compute {lookup : String → Scalar → ExceptT Error (StateM Progress) Row}
    (h : ∀ name key, Raises (Error.Sound lines) (lookup name key)) (ds : List Definition)
    (row : Row) (p : Progress) :
    ∀ failed ∈ (compute lookup ds row p).1.2, failed.2.Sound lines := by
  induction ds generalizing row p with
  | nil =>
    rw [compute_nil]
    rintro _ ⟨⟩
  | cons d ds ih =>
    have hd : Raises (Error.Sound lines) (d.formula.evaluate (rowContext lookup row)) :=
      raises_evaluate h (fun f _ => .throw (Error.sound_of_isOwn rfl)) d.formula
    have hp := raises_iff_runFrom.1 hd p
    rw [compute_cons]
    rcases hv : runFrom p (d.formula.evaluate (rowContext lookup row)) with ⟨e | v, q⟩ <;>
      rw [hv] at hp
    · rintro _ ⟨⟩
      exact hp e rfl
    · exact ih _ q

theorem complete_failure {column : String} {e : Error} (hspan : input.span.Inside lines)
    (h : e.Sound lines) :
    (failure table input column e).Complete lines :=
  Diagnostic.Sound.complete_of_row h hspan rfl rfl rfl

/-- A row fails as one of its formulas does, or it is being computed already, or no more rows may be
begun. -/
theorem failsAs_materialize (h : s.Inside lines) (depth : Nat) (id : RowId) (p : Progress) :
    FailsAs (fun d => d.Complete lines ∨ d.Sound lines ∧ (p.slot? id = some .visiting ∨ depth = 0))
      (runFrom p (s.materialize depth id)).1 := by
  induction depth using Nat.strongRecOn generalizing id p with
  | ind depth ih =>
    rcases hr : s.row? id with _ | ⟨table, input⟩
    · rw [runFrom_materialize_of_row?_eq_none (a := p) hr]
      exact .ok _
    · intro d hd
      rcases of_materialize_error hr (Prod.ext hd rfl) with
        ⟨rfl, -, hp⟩ | ⟨k, row, row', column, e, q, rfl, -, hc, rfl, -⟩
      · exact .inr ⟨Error.sound_of_isOwn rfl, hp.imp_right And.left⟩
      · have hrows (other : RowId) :
            Raises (Diagnostic.Sound lines) (s.materialize (m := StateM Progress) k other) :=
          raises_iff_runFrom.2 fun p => (ih k (Nat.lt_succ_self k) other p).mono fun d hd =>
            hd.elim Diagnostic.Complete.toSound And.left
        have he := sound_of_compute (raises_lookupBy (s := s) hrows) table.computed row (p.enter id)
          (column, e)
        rw [hc] at he
        exact .inl (complete_failure (h.span hr) (he rfl))

theorem raises_materialize (h : s.Inside lines) (depth : Nat) (id : RowId) :
    Raises (Diagnostic.Sound lines) (s.materialize (m := StateM Progress) depth id) :=
  raises_iff_runFrom.2 fun p => (failsAs_materialize h depth id p).mono fun _ hd =>
    hd.elim Diagnostic.Complete.toSound And.left

/-- Where no row is being computed, the rows that are asked for fail with a place. -/
theorem complete_of_forM_error (h : s.Inside lines) {visits : List RowId} {p : Progress}
    (hp : s.Reached p) (hpath : p.path = []) (hsize : visits ≠ [] → s.size ≠ 0) :
    FailsAs (Diagnostic.Complete lines) (runFrom p (visits.forM (s.materialize s.size))).1 := by
  induction visits generalizing p with
  | nil => exact .ok _
  | cons id visits ih =>
    have hid := failsAs_materialize h s.size id p
    obtain ⟨hreached, hadvance⟩ := tame_materialize s s.size id p hp
    rw [runFrom_forM_cons]
    rcases hm : runFrom p (s.materialize s.size id) with ⟨d | u, q⟩ <;>
      rw [hm] at hid hreached hadvance
    · refine .error ((hid d rfl).resolve_right fun ⟨_, hd⟩ =>
        hd.elim (fun hv => ?_) (hsize (List.cons_ne_nil _ _)))
      -- the rows that are being computed are those of the path, and there are none
      have hmem := (hp.sound.mem_path id).2 hv
      rw [hpath] at hmem
      cases hmem
    · exact ih hreached (hadvance.path.trans hpath) fun _ => hsize (List.cons_ne_nil _ _)

/-- A failure of the rows of a document has a place. -/
theorem complete_of_materializeAll_error (h : s.Inside lines) :
    FailsAs (Diagnostic.Complete lines) (runFrom s.initial s.materializeAll).1 :=
  complete_of_forM_error h (reached_initial s) rfl fun hids => List.length_eq_zero_iff.not.2 hids

/-! ## Aggregates -/

theorem raises_lookup (h : s.Inside lines) (name : String) (key : Scalar) :
    Raises (Error.Sound lines) (s.lookup (m := StateM Progress) name key) :=
  raises_lookupBy (raises_materialize h s.size) name key

theorem sound_of_apply_error (f : Formula.AggregateFunction) (values : List Scalar) :
    FailsAs (Error.Sound lines) (f.apply values) := by
  rw [Formula.AggregateFunction.apply]
  split
  · exact .ok _
  · refine FailsAs.bind (.mapM fun value _ => ?_) fun numbers _ => .ok _
    rw [Formula.AggregateFunction.number.eq_def]
    split
    · exact .ok _
    · exact .error (Error.sound_of_isOwn rfl)

/-- The formula of an aggregate raises sound errors only. -/
theorem raises_evaluate_aggregate (h : s.Inside lines) (columns : List String) (rows : List RowId)
    (e : Expr) :
    Raises (Error.Sound lines) (e.evaluate (s.aggregateContext columns rows)) := by
  refine raises_evaluate (raises_lookup h) (fun f column => ?_) e
  dsimp only [aggregateContext]
  split
  · exact .throw (Error.sound_of_isOwn rfl)
  · exact raises_get.bind fun _ => raises_lift (sound_of_apply_error f _)

theorem failsAs_foldable (name : String) : FailsAs (Error.Sound lines) (s.foldable name) := by
  rw [foldable]
  split
  · exact .error (Error.sound_of_isOwn rfl)
  · split
    · exact .error (Error.sound_of_isOwn rfl)
    · exact .ok _

theorem raises_aggregate (h : s.Inside lines) (name : String) (e : Expr) :
    Raises (Error.Sound lines) (s.aggregate name e) :=
  (raises_lift (failsAs_foldable name)).bind fun (columns, rows) =>
    raises_evaluate_aggregate h columns rows e

theorem raises_aggregateGroups (h : s.Inside lines) (name column : String) (e : Expr) :
    Raises (Error.Sound lines) (s.aggregateGroups name column e) :=
  (raises_lift (failsAs_foldable name)).bind fun (columns, _) => raises_get.bind fun _ =>
    raises_mapM fun (_, members) _ =>
      (raises_evaluate_aggregate h columns members e).bind fun _ => .pure _

end TableDoc.Store
