import TableDoc.Proofs.Formula.Arrangement
import TableDoc.Proofs.Formula.References
import TableDoc.Proofs.Store.Recursion

/-!
# Reordering computed columns

Columns that are filled in one after another give a row in which every column has the value of its
formula in that same row (`solves_of_fill`), and every such row comes out (`fill_of_solves`): a
formula reads no column that is still to be filled in. So two arrangements of the same columns give
rows with the same values (`fill_perm`). Rows that are looked up matter only by their columns and
values (`fill_alike`). Hence a store in which the computed columns of one table are arranged in
another way computes the same (`recomputeAt_perm`).
-/

namespace TableDoc.Store

open Formula (Context Correspondence Definition Error Expr Value)
open Formula.Dependencies (Arranged)

variable {lookup lookup' : String → Scalar → ExceptT Error Option Row} {row row' : Row}
  {ds ds' : List Definition} {values : String → Option Scalar}

/-! ## Lookups of rows with the same values -/

/-- What succeeds on the left succeeds on the right, with the same scalar or with a row of the same
values. -/
def likeness : Correspondence Option Option where
  rows r r' := r.get? = r'.get?
  errors _ := True
  rel x y := ∀ v, x.run = some (.ok v) → ∃ w, y.run = some (.ok w) ∧
    v.Alike (fun r r' => r.get? = r'.get?) w
  get?_eq h := h
  ofOperation _ _ := trivial
  pure {v w} h := by
    rintro _ ⟨⟩
    exact ⟨w, rfl, h⟩
  throw _ := nofun
  bind hx hf u hu := by
    obtain ⟨v, hv, hu⟩ := run_bind_eq_some_ok.1 hu
    obtain ⟨w, hw, hvw⟩ := hx v hv
    obtain ⟨t, ht, hut⟩ := hf v w hvw u hu
    exact ⟨t, run_bind_eq_some_ok.2 ⟨w, hw, ht⟩, hut⟩

/-- Lookups that succeed on the left give rows of the same values on the right. -/
def AlikeLookups (lookup lookup' : String → Scalar → ExceptT Error Option Row) : Prop :=
  ∀ name key row, (lookup name key).run = some (.ok row) →
    ∃ row', (lookup' name key).run = some (.ok row') ∧ row.get? = row'.get?

/-- Lookups of rows with equal values give equal values to formulas. -/
theorem evaluate_alike (h : AlikeLookups lookup lookup') {e : Expr} {v : Scalar}
    (hv : (e.evaluate (rowContext lookup row)).run = some (.ok v)) :
    (e.evaluate (rowContext lookup' row)).run = some (.ok v) := by
  have hgives : likeness.Gives (rowContext lookup row) (rowContext lookup' row) := by
    refine ⟨fun name key v hv => ?_, fun _ _ => nofun⟩
    rw [map_eq_pure_bind] at hv ⊢
    obtain ⟨r, hr, hv⟩ := run_bind_eq_some_ok.1 hv
    cases hv
    obtain ⟨r', hr', hrows⟩ := h name key r hr
    exact ⟨.row r', run_bind_eq_some_ok.2 ⟨r', hr', rfl⟩, .row hrows⟩
  have hname (name : String) : likeness.rel ((Expr.identifier name).value (rowContext lookup row))
      ((Expr.identifier name).value (rowContext lookup' row)) := by
    rw [Expr.value_identifier, Expr.value_identifier]
    dsimp only [rowContext]
    cases row.get? name with
    | none => exact likeness.throw trivial
    | some s => exact likeness.pure (.scalar s)
  obtain ⟨u, hu, hv⟩ := run_bind_eq_some_ok.1 hv
  obtain ⟨w, hw, huw⟩ := likeness.value hgives e (.inr ⟨fun _ => trivial, hname⟩) u hu
  rw [Correspondence.toScalar_eq (R := likeness) huw] at hv
  exact run_bind_eq_some_ok.2 ⟨w, hw, hv⟩

/-- Columns are filled in with the same values if rows that are looked up have the same values. -/
theorem fill_alike (h : AlikeLookups lookup lookup')
    (hf : (fill lookup ds row).run = some (.ok row')) :
    (fill lookup' ds row).run = some (.ok row') := by
  induction ds generalizing row with
  | nil => exact hf
  | cons d ds ih =>
    obtain ⟨v, hv, hf⟩ := run_bind_eq_some_ok.1 hf
    exact run_bind_eq_some_ok.2 ⟨v, evaluate_alike h hv, ih hf⟩

/-! ## Values that solve all formulas -/

/-- What the formulas of a row can reach, if the row has these values. -/
def valuesContext (lookup : String → Scalar → ExceptT Error Option Row)
    (values : String → Option Scalar) :
    Context Option :=
  { rowContext lookup ∅ with resolve := values }

/-- The values are those of the row, but for the columns that are computed; these have the values of
their formulas. -/
structure Solves (lookup : String → Scalar → ExceptT Error Option Row) (row : Row)
    (ds : List Definition) (values : String → Option Scalar) : Prop where
  given : ∀ name ∉ ds.map Definition.name, values name = row.get? name
  computed : ∀ d ∈ ds, ∃ v, (d.formula.evaluate (valuesContext lookup values)).run = some (.ok v) ∧
    values d.name = some v

theorem Solves.of_perm (h : Solves lookup row ds values) (hp : ds.Perm ds') :
    Solves lookup row ds' values where
  given name hn := h.given name fun hmem => hn ((hp.map Definition.name).mem_iff.1 hmem)
  computed d hd := h.computed d (hp.mem_iff.2 hd)

/-- A formula that reads no column that is still to be computed has the value that it has in the
end. -/
theorem evaluate_eq_of_given {d : Definition} {refs : List String}
    (hrefs : d.formula.references = .ok refs)
    (hlater : ∀ name ∈ refs, name ∉ (d :: ds).map Definition.name)
    (hgiven : ∀ name ∉ (d :: ds).map Definition.name, values name = row.get? name) :
    d.formula.evaluate (rowContext lookup row) = d.formula.evaluate (valuesContext lookup values) :=
  Expr.evaluate_congr hrefs rfl rfl fun name hname => (hgiven name (hlater name hname)).symm

/-- A row that is filled solves its definitions. -/
theorem solves_of_fill (h : Arranged ds) (hf : (fill lookup ds row).run = some (.ok row')) :
    Solves lookup row ds row'.get? := by
  induction h generalizing row with
  | nil =>
    cases hf
    exact ⟨fun _ _ => rfl, nofun⟩
  | @cons d ds refs hrefs hlater hname _ ih =>
    obtain ⟨v, hv, hf⟩ := run_bind_eq_some_ok.1 hf
    have hsolves := ih hf
    have hgiven : ∀ name ∉ (d :: ds).map Definition.name, row'.get? name = row.get? name := by
      intro name hn
      rw [List.map_cons, List.mem_cons, not_or] at hn
      rw [hsolves.given name hn.2, Row.get?_insert, if_neg hn.1]
    refine ⟨hgiven, List.forall_mem_cons.2 ⟨⟨v, ?_, ?_⟩, hsolves.computed⟩⟩
    · rw [← evaluate_eq_of_given hrefs hlater hgiven]
      exact hv
    · rw [hsolves.given d.name hname, Row.get?_insert, if_pos rfl]

/-- Values that solve the definitions are those that a row is filled with. -/
theorem fill_of_solves (h : Arranged ds) (hs : Solves lookup row ds values) :
    ∃ row', (fill lookup ds row).run = some (.ok row') ∧ row'.get? = values := by
  induction h generalizing row with
  | nil => exact ⟨row, rfl, funext fun name => (hs.given name nofun).symm⟩
  | @cons d ds refs hrefs hlater hname _ ih =>
    obtain ⟨⟨v, hv, hd⟩, hcomputed⟩ := List.forall_mem_cons.1 hs.computed
    rw [← evaluate_eq_of_given hrefs hlater hs.given] at hv
    have hlaterSolves : Solves lookup (row.insert d.name v) ds values := by
      refine ⟨fun name hn => ?_, hcomputed⟩
      rw [Row.get?_insert]
      split
      · next heq => rw [heq, hd]
      · next hne => exact hs.given name fun hmem => (List.mem_cons.1 hmem).elim hne hn
    obtain ⟨row', hf, hrow'⟩ := ih hlaterSolves
    exact ⟨row', run_bind_eq_some_ok.2 ⟨v, hv, hf⟩, hrow'⟩

/-- Two arrangements of the same columns fill in the same values. -/
theorem fill_perm (h : Arranged ds) (h' : Arranged ds') (hp : ds.Perm ds')
    (hf : (fill lookup ds row).run = some (.ok row')) :
    ∃ row'', (fill lookup ds' row).run = some (.ok row'') ∧ row''.get? = row'.get? :=
  fill_of_solves h' ((solves_of_fill h hf).of_perm hp)

/-! ## Stores -/

/-- The store with other formulas for the computed columns of a table. -/
def withComputed (s : Store) (i : Nat) (ds : List Definition) : Store :=
  ⟨s.tables.modify i fun table => { table with computed := ds }⟩

variable {s : Store} {i n : Nat} {id : RowId}

theorem getElem?_withComputed (s : Store) (i : Nat) (ds : List Definition) (t : Nat) :
    (s.withComputed i ds).tables[t]? =
      s.tables[t]?.map fun table => if i = t then { table with computed := ds } else table := by
  rw [withComputed, List.getElem?_modify]
  cases s.tables[t]? with
  | none => rfl
  | some table => by_cases h : i = t <;> simp [h]

theorem row?_withComputed (s : Store) (i : Nat) (ds : List Definition) (id : RowId) :
    (s.withComputed i ds).row? id = (s.row? id).map fun found =>
      (if i = id.table then { found.1 with computed := ds } else found.1, found.2) := by
  rw [row?, row?, getElem?_withComputed]
  cases s.tables[id.table]? with
  | none => rfl
  | some table => by_cases h : i = id.table <;> cases hr : table.rows[id.row]? <;> simp [h, hr]

theorem map_withComputed {α : Type} {f : InputTable → α}
    (hf : ∀ table, f { table with computed := ds } = f table) (s : Store) (i : Nat) :
    (s.withComputed i ds).tables.map f = s.tables.map f := by
  refine List.ext_getElem? fun t => ?_
  rw [List.getElem?_map, List.getElem?_map, getElem?_withComputed, Option.map_map]
  refine congrArg (Option.map · _) (funext fun table => ?_)
  by_cases h : i = t
  · simp [h, hf]
  · simp [h]

theorem find_withComputed (s : Store) (i : Nat) (ds : List Definition) (name : String)
    (key : Scalar) :
    (s.withComputed i ds).find name key = s.find name key := by
  rw [find, find, tableIndex?, tableIndex?, map_withComputed fun _ => rfl]
  rcases lastIndex? name (s.tables.map InputTable.name) with _ | t
  · rfl
  · have hrows :
        ((s.withComputed i ds).tables[t]?).bind
          (fun found => lastIndex? key.toText (found.rows.map InputRow.key)) =
            (s.tables[t]?).bind fun found =>
              lastIndex? key.toText (found.rows.map InputRow.key) := by
      rw [getElem?_withComputed]
      cases s.tables[t]? with
      | none => rfl
      | some table => by_cases h : i = t <;> simp [h]
    simp only [hrows]

theorem ids_withComputed (s : Store) (i : Nat) (ds : List Definition) :
    (s.withComputed i ds).ids = s.ids := by
  have hids (s : Store) : s.ids =
      (s.tables.map fun table => table.rows.length).zipIdx.flatMap fun (n, i) =>
        (List.range n).map (⟨i, ·⟩) := by
    rw [List.zipIdx_map, List.flatMap_map]
    rfl
  rw [hids, hids, map_withComputed fun _ => rfl]

/-- The same rows can be recomputed, with the same values and with lookups nested equally deep. -/
theorem recomputeAt_perm (h : Arranged ds) (h' : Arranged ds') (hp : ds.Perm ds') (n : Nat) :
    ∀ {id row}, ((s.withComputed i ds).recomputeAt n id).run = some (.ok row) →
      ∃ row', ((s.withComputed i ds').recomputeAt n id).run = some (.ok row') ∧
        row.get? = row'.get? := by
  induction n with
  | zero => nofun
  | succ n ih =>
    intro id row hrow
    have hlookups :
        AlikeLookups ((s.withComputed i ds).answerAt ((s.withComputed i ds).recomputeAt n))
          ((s.withComputed i ds').answerAt ((s.withComputed i ds').recomputeAt n)) := by
      intro name key row hrow
      rw [answerAt, find_withComputed] at hrow ⊢
      split at hrow
      · exact ih hrow
      · cases hrow
    rcases hr : s.row? id with _ | ⟨table, input⟩
    · rw [recomputeAt, row?_withComputed, hr] at hrow
      cases hrow
    rw [recomputeAt_succ (by rw [row?_withComputed, hr]; rfl)] at hrow ⊢
    by_cases hi : i = id.table
    · rw [if_pos hi] at hrow ⊢
      obtain ⟨row', hf, hrow'⟩ := fill_perm h h' hp (fill_alike hlookups hrow)
      exact ⟨row', hf, hrow'.symm⟩
    · rw [if_neg hi] at hrow ⊢
      exact ⟨row, fill_alike hlookups hrow, rfl⟩

/-- If all rows can be computed, they can with the columns arranged in another way, and have the
same values. -/
theorem materializeAll_perm (h : Arranged ds) (h' : Arranged ds') (hp : ds.Perm ds') (s : Store)
    (i : Nat) :
    let run := runFrom (s.withComputed i ds).initial (s.withComputed i ds).materializeAll
    let run' := runFrom (s.withComputed i ds').initial (s.withComputed i ds').materializeAll
    run.1 = .ok () → run'.1 = .ok () ∧ ∀ id name,
      (run.2.row id).get? name = (run'.2.row id).get? name := by
  intro run run' hrun
  have hrows := (forM_ok_iff fun _ h => h).1 hrun
  have hrun' : run'.1 = .ok () := by
    refine (forM_ok_iff fun _ h => h).2 fun id hid => ?_
    rw [ids_withComputed] at hid
    obtain ⟨row, n, hrow⟩ := hrows id (ids_withComputed s i ds ▸ hid)
    obtain ⟨row', hrow', -⟩ := recomputeAt_perm h h' hp n hrow
    exact ⟨row', n, hrow'⟩
  refine ⟨hrun', fun id name => ?_⟩
  by_cases hid : id ∈ s.ids
  · have hid₁ : id ∈ (s.withComputed i ds).ids := (ids_withComputed s i ds).symm ▸ hid
    have hid₂ : id ∈ (s.withComputed i ds').ids := (ids_withComputed s i ds').symm ▸ hid
    obtain ⟨n, hrow⟩ := recomputesAt_of_materializeAll_ok hrun hid₁
    obtain ⟨row', hrow', heq⟩ := recomputeAt_perm h h' hp n hrow
    rw [← (recomputesAt_of_materializeAll_ok hrun' hid₂).unique ⟨n, hrow'⟩] at heq
    exact congrFun heq name
  · have hsound (s : Store) :
        s.Sound (runFrom s.initial (s.materializeAll (m := StateM Progress))).2 :=
      (tame_forM s s.size s.ids s.initial (reached_initial s)).1.sound
    have hid₁ : id ∉ (s.withComputed i ds).ids := (ids_withComputed s i ds).symm ▸ hid
    have hid₂ : id ∉ (s.withComputed i ds').ids := (ids_withComputed s i ds').symm ▸ hid
    rw [(hsound _).row_eq_empty hid₁, (hsound _).row_eq_empty hid₂]

end TableDoc.Store
